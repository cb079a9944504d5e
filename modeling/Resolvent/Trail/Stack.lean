namespace Resolvent

def since {α : Type} (stack : Array α) (height : Nat) : List α :=
  (stack.extract height).toList.reverse

end Resolvent
