import Mathlib.Data.List.Basic
import PathSelection.Files

namespace PathSelection

section Bytes

end Bytes

namespace Directory

variable {d : Directory} {location inner : Location} {name path text : String}
variable {content : List UInt8} {target : Target}

/-- What a text that was written to a path makes of a directory. It is read back, if the path does
not lead to the device that drops all, and no other file has changed. -/
structure Stored (d : Directory) (path text : String) (d' : Directory) : Prop where
  written : d.writeText path text = (.ok (), d')
  read_back : d'.readText path = .ok text ∨
    d.target path = .ok (.entry (.system ["dev"]) "null" false) ∧ d' = d
  kept : ∀ location name slash, d.target path = .ok (.entry location name slash) →
    ∀ other ≠ location.entry name, d'.get? other = d.get? other

end Directory

end PathSelection
