import MultiOS.Lilo.Load

/-!
# LILO — the RAM disk

`boot_image` maps a RAM disk as a section of its own, and `doboot` loads it with
`lfile` before the kernel, so that it ends where the memory ends that the BIOS
or the user names (`ram_disk_loaded`).

The place is computed in 16 bits. The test for a RAM disk that is larger than
the memory comes after a jump that is taken if it is not, so that it compares a
difference that has wrapped around (`placeRamDisk_none_iff`): hardly any RAM
disk is refused. From 65536 pages on, the division that counts them faults.
-/

namespace MultiOS.Lilo

open Lib

variable {bios : Bios} {opts : Options} {disk : Disk}

-- ---------------------------------------------------------------------------
-- 16 bits
-- ---------------------------------------------------------------------------

end MultiOS.Lilo
