import Ouroboros.Loader.Populate
import Ouroboros.Kernel.State

/-!
# The kernel with the program loader

* `Event.apply`  what an event of the loader does to memory;
* `withLoader`  a kernel whose spawns load programs with this loader;
* `plainImage`  a program of one segment that it accepts.
-/

namespace Ouroboros.Loader

/-- `bytes` put at `addr`. -/
def poke (mem : Nat → UInt8) (addr : Nat) (bytes : List UInt8) : Nat → UInt8 := fun a =>
  if addr ≤ a ∧ a < addr + bytes.length then bytes.getD (a - addr) 0 else mem a

def Event.apply (mem : Nat → UInt8) : Event → (Nat → UInt8)
  | .write addr bytes => poke mem addr bytes
  | .read _ _ => mem
  | .sum _ _ => mem

/-- what `SPAWN` makes of a loader error. -/
def LoaderError.toLoadError : LoaderError → Kernel.LoadError
  | .regionTooLarge _ => .regionTooLarge
  | _ => .badElf

def withLoader (M : Kernel.Machine) : Kernel.Machine :=
  { M with
    elfRegionSize := fun image =>
      match (elfRegionSize image).result with
      | .ok r => .ok r.2.2
      | .error e => .error e.toLoadError
    elfRegionSize_bound := by
      intro image size h
      split at h
      · rename_i r hr
        cases h
        exact elfRegionSize_bound hr
      · cases h
    populateRegion := fun image base size mem =>
      match (elfRegionSize image).result with
      | .ok r =>
        let loaded := populateRegion image r.1 r.2.1 base size
        (loaded.result.toBool, loaded.log.foldl Event.apply mem)
      | .error _ => (false, mem) }

/-- the header of a program of one segment, entered at its start, and `sections` section headers from `shoff` on;
then the header of the segment: `size` bytes of the image from `offset` on, at the start of a page. -/
def imageStart (shoff sections names offset size : Nat) : List UInt8 :=
  -- `e_ident` up to `e_machine`, `e_version` and `e_entry`
  elfMagic ++ [elfClass64, elfData2Lsb] ++ List.replicate 10 0 ++ leBytes 2 etDyn ++ leBytes 2 emAarch64 ++
  leBytes 4 1 ++ leBytes 8 0 ++
  -- `e_phoff`, `e_shoff`, `e_flags` and `e_ehsize`; then sizes and counts of the tables
  leBytes 8 64 ++ leBytes 8 shoff ++ leBytes 4 0 ++ leBytes 2 64 ++
  leBytes 2 56 ++ leBytes 2 1 ++ leBytes 2 64 ++ leBytes 2 sections ++ leBytes 2 names ++
  leBytes 4 ptLoad ++ leBytes 4 5 ++ leBytes 8 offset ++ leBytes 8 0 ++ leBytes 8 0 ++ leBytes 8 size ++
  leBytes 8 pageSize ++ leBytes 8 pageSize

/-- a program without sections: `code`, which is all that follows the headers. -/
def plainImage (code : List UInt8) : List UInt8 := imageStart 0 0 0 120 code.length ++ code

end Ouroboros.Loader
