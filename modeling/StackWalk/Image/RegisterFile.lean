import Std.Data.HashMap
import StackWalk.Target

/-!
# Register files

The registers of one thread.  Registers that were never given a value are
zero.
-/

namespace StackWalk.Image

/-- The registers of one thread. -/
structure RegisterFile where
  general : Std.HashMap Column UInt64
  floating : Std.HashMap Column FpImage

namespace RegisterFile

/-- All registers are zero. -/
def empty : RegisterFile := ⟨∅, ∅⟩

/-- Registers with the given values, later ones over earlier ones. -/
def ofLists (general : List (Column × UInt64)) (floating : List (Column × FpImage)) :
    RegisterFile where
  general := .ofList general
  floating := .ofList floating

def get (file : RegisterFile) (reg : Column) : UInt64 :=
  file.general.getD reg 0

def set (file : RegisterFile) (reg : Column) (value : UInt64) : RegisterFile :=
  { file with general := file.general.insert reg value }

def getFp (file : RegisterFile) (reg : Column) : FpImage :=
  file.floating.getD reg 0

def setFp (file : RegisterFile) (reg : Column) (image : FpImage) : RegisterFile :=
  { file with floating := file.floating.insert reg image }

/-- The general registers below `count` that are not zero, in order. -/
def nonzero (file : RegisterFile) (count : Nat) : List (Column × UInt64) :=
  (List.range count).filterMap fun reg =>
    let value := file.get reg
    if value = 0 then none else some (reg, value)

end RegisterFile
end StackWalk.Image
