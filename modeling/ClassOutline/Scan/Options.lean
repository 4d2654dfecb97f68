/-!
# Options of a scan
-/

namespace ClassOutline

/-- What a scan leaves out, and how it goes through files. -/
structure ScanOptions where
  /-- The greatest number of bytes of a file that is read. -/
  sizeLimit : Nat := 10485760
  /-- Whether static members are left out of the outlines. -/
  skipStatic : Bool := false
  /-- Whether several files are scanned by several workers. -/
  parallel : Bool := false
  /-- The number of workers, if it is fixed. -/
  workers : Option Nat := none
deriving DecidableEq, Repr

namespace ScanOptions

/-- The options under which only instance members are kept. -/
def instanceOnly : ScanOptions where
  skipStatic := true

end ScanOptions

end ClassOutline
