import Mathlib

namespace FirebaseEmu.Lib

variable {ρ : Type} {shows : ρ → Int → Prop}

/-- Amounts that are added one after the other, each answered with the total it makes. -/
inductive Tallied (shows : ρ → Int → Prop) : Int → List (Int × ρ) → Int → Prop
  | nil (total : Int) : Tallied shows total [] total
  | cons {start last amount : Int} {answer : ρ} {rest : List (Int × ρ)}
    (hanswer : shows answer (start + amount)) (h : Tallied shows (start + amount) rest last) :
    Tallied shows start ((amount, answer) :: rest) last

/-- How far additions can move a total. -/
def reach (additions : List (Int × ρ)) : Int := (additions.map fun addition => |addition.1|).sum

namespace Tallied

theorem append {start middle last : Int} {additions more : List (Int × ρ)}
    (h : Tallied shows start additions middle) (hm : Tallied shows middle more last) :
    Tallied shows start (additions ++ more) last := by
  induction h with
  | nil total => exact hm
  | cons hanswer _ ih => exact .cons hanswer (ih hm)

end Tallied

end FirebaseEmu.Lib
