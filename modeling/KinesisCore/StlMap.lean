import KinesisCore.Stl

/-!
# Ordered maps

`std::map` with a comparator, as the list of its entries in the comparator's
order. Two keys neither of which comes before the other are the same to the
map. What is in the list is settled by membership; the order of the list is
what `begin` and `upper_bound` depend on.
-/

namespace Stl.Map

variable {κ ν : Type} (lt : κ → κ → Bool)

/-- `emplace`: an entry whose key is there already is left as it is. -/
def emplace (k : κ) (v : ν) : List (κ × ν) → List (κ × ν)
  | [] => [(k, v)]
  | e :: l =>
    if lt k e.1 then (k, v) :: e :: l
    else if lt e.1 k then e :: emplace k v l
    else e :: l

variable (k : κ) (l : List (κ × ν))

/-- `find` and then `erase` of what was found. -/
def erase : List (κ × ν) := l.filter fun e => lt k e.1 || lt e.1 k

/-- The entries stand in the order of their keys. -/
def Sorted : Prop := l.Pairwise fun a b => lt a.1 b.1 = true

end Stl.Map
