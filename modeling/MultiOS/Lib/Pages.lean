import Mathlib.Data.List.Basic

/-!
# A list in linked pages

A page has a fixed number of slots for entries, and one more for a link to the
next page; the last page ends in an end mark. `paginate` fills pages one after
the other, as a program does that writes a page when the next entry no longer
fits. `Listed` is what a reader finds that goes from slot to slot and follows
the link at the end of a page; `paginate_listed` says that the reader finds
the entries that were written, wherever the links lead to the pages.
-/

namespace Lib

variable {π α : Type*}

/-- How entries are put into pages: `make` makes a page of some entries and a
link, if there is a next page. -/
structure PageFormat (π α : Type*) where
  width : Nat
  slot : π → Nat → α
  IsEnd : α → Prop
  make : List α → Option α → π
  width_pos : 0 < width
  slot_make : ∀ (before after : List α) (a : α) (link : Option α),
    (before ++ a :: after).length ≤ width →
    slot (make (before ++ a :: after) link) before.length = a
  slot_link : ∀ (as : List α) (link : α), as.length = width →
    slot (make as (some link)) width = link
  slot_end : ∀ as : List α, as.length ≤ width → IsEnd (slot (make as none) as.length)

/-- A reader at a slot of a page finds a list of entries. -/
inductive Listed (format : PageFormat π α) (leads : α → π → Prop) : π → Nat → List α → Prop
  | done {p i} (hEnd : format.IsEnd (format.slot p i)) : Listed format leads p i []
  | here {p i a as} (hWidth : i < format.width) (hSlot : format.slot p i = a)
      (hNot : ¬ format.IsEnd a) (hRest : Listed format leads p (i + 1) as) :
      Listed format leads p i (a :: as)
  | turn {p q link a as} (hSlot : format.slot p format.width = link)
      (hNot : ¬ format.IsEnd link) (hLeads : leads link q)
      (hRest : Listed format leads q 0 (a :: as)) :
      Listed format leads p format.width (a :: as)

/-- The pages for some entries, when page `n` is begun and has `buffer` in it.
`link n` is the link to page `n`. -/
def paginate (format : PageFormat π α) (link : Nat → α) : Nat → List α → List α → List π
  | _, buffer, [] => if buffer.length = 0 then [] else [format.make buffer none]
  | n, buffer, a :: as =>
    if buffer.length = format.width then
      format.make buffer (some (link (n + 1))) :: paginate format link (n + 1) [a] as
    else paginate format link n (buffer ++ [a]) as

section
variable {format : PageFormat π α} {leads : α → π → Prop} {link : Nat → α}

/-- The page begun comes first, with what is in the buffer. -/
theorem paginate_first (format : PageFormat π α) (link : Nat → α) (n : Nat) (buffer : List α)
    (hBuffer : buffer ≠ []) (hWidth : buffer.length ≤ format.width) (as : List α) :
    ∃ p ps, paginate format link n buffer as = p :: ps ∧
      ∀ before a after, buffer = before ++ a :: after → format.slot p before.length = a := by
  induction as generalizing buffer with
  | nil =>
    refine ⟨format.make buffer none, [], ?_, ?_⟩
    · rw [paginate, if_neg (by simpa using hBuffer)]
    · rintro before a after rfl
      exact format.slot_make before after a none hWidth
  | cons a as ih =>
    by_cases hFull : buffer.length = format.width
    · refine ⟨format.make buffer (some (link (n + 1))), paginate format link (n + 1) [a] as, ?_, ?_⟩
      · rw [paginate, if_pos hFull]
      · rintro before b after rfl
        exact format.slot_make before after b _ hWidth
    · obtain ⟨p, ps, hPages, hSlots⟩ := ih (buffer ++ [a]) (by simp) (by simp; omega)
      refine ⟨p, ps, ?_, ?_⟩
      · rw [paginate, if_neg hFull, hPages]
      · rintro before b after rfl
        exact hSlots before b (after ++ [a]) (by simp)

/-- A reader past the buffer of the first page finds the entries after it. -/
theorem paginate_rest {n : Nat} {buffer as : List α} {p : π} {ps : List π}
    (hPages : paginate format link n buffer as = p :: ps)
    (hLeads : ∀ i q, ps[i]? = some q → leads (link (n + 1 + i)) q)
    (hLinks : ∀ i, i < ps.length → ¬ format.IsEnd (link (n + 1 + i)))
    (hEntries : ∀ a ∈ as, ¬ format.IsEnd a) (hBuffer : buffer ≠ [])
    (hWidth : buffer.length ≤ format.width) :
    Listed format leads p buffer.length as := by
  induction as generalizing n buffer p ps with
  | nil =>
    rw [paginate, if_neg (by simpa using hBuffer)] at hPages
    obtain ⟨rfl, rfl⟩ := List.cons.inj hPages
    exact Listed.done (format.slot_end buffer hWidth)
  | cons a as ih =>
    have hNot := hEntries a List.mem_cons_self
    have hAfter : ∀ b ∈ as, ¬ format.IsEnd b := fun b hb => hEntries b (List.mem_cons_of_mem a hb)
    by_cases hFull : buffer.length = format.width
    · -- the page is full: `a` is the first entry of the next one
      rw [paginate, if_pos hFull] at hPages
      obtain ⟨rfl, rfl⟩ := List.cons.inj hPages
      obtain ⟨q, qs, hNext, hSlots⟩ :=
        paginate_first format link (n + 1) [a] (by simp) format.width_pos as
      rw [hNext] at hLeads hLinks
      have hRest : Listed format leads q 1 as := by
        refine ih hNext ?_ ?_ hAfter (by simp) format.width_pos
        · intro i r hr
          rw [Nat.add_right_comm]
          exact hLeads (i + 1) r hr
        · intro i hi
          rw [Nat.add_right_comm]
          exact hLinks (i + 1) (by simpa using hi)
      rw [hFull]
      exact Listed.turn (format.slot_link buffer _ hFull) (hLinks 0 (by simp)) (hLeads 0 q rfl)
        (Listed.here format.width_pos (hSlots [] a [] rfl) hNot hRest)
    · rw [paginate, if_neg hFull] at hPages
      obtain ⟨p', ps', hPages', hSlots⟩ :=
        paginate_first format link n (buffer ++ [a]) (by simp) (by simp; omega) as
      rw [hPages] at hPages'
      obtain ⟨rfl, rfl⟩ := List.cons.inj hPages'
      have hRest := ih hPages hLeads hLinks hAfter (by simp) (by simp; omega)
      rw [List.length_append] at hRest
      exact Listed.here (by omega) (hSlots buffer a [] rfl) hNot hRest

/-- **Pages read back.** If the link to each page leads to it, and no entry and no
link is an end mark, then a reader at the first slot of the first page finds
the entries. -/
theorem paginate_listed {n : Nat} {as : List α} {p : π} {ps : List π}
    (hPages : paginate format link n [] as = p :: ps)
    (hLeads : ∀ i q, ps[i]? = some q → leads (link (n + 1 + i)) q)
    (hLinks : ∀ i, i < ps.length → ¬ format.IsEnd (link (n + 1 + i)))
    (hEntries : ∀ a ∈ as, ¬ format.IsEnd a) : Listed format leads p 0 as := by
  cases as with
  | nil => cases hPages
  | cons a as =>
    have hWidth := format.width_pos
    rw [paginate, if_neg (by simp; omega), List.nil_append] at hPages
    obtain ⟨q, qs, hFirst, hSlots⟩ :=
      paginate_first format link n [a] (by simp) hWidth as
    rw [hPages] at hFirst
    obtain ⟨rfl, rfl⟩ := List.cons.inj hFirst
    have hRest := paginate_rest hPages hLeads hLinks
      (fun b hb => hEntries b (List.mem_cons_of_mem a hb)) (by simp) hWidth
    exact Listed.here hWidth (hSlots [] a [] rfl) (hEntries a List.mem_cons_self) hRest

end

end Lib
