/-! Byte offsets into a text held as a list of characters, each as long as its UTF-8 form. -/

namespace TinyScript.Text

def byteLength (cs : List Char) : Nat := cs.foldr (fun c n => c.utf8Size + n) 0

@[simp] theorem byteLength_nil : byteLength [] = 0 := rfl

@[simp] theorem byteLength_cons (c : Char) (cs : List Char) :
    byteLength (c :: cs) = c.utf8Size + byteLength cs := rfl

@[simp] theorem byteLength_append (as bs : List Char) :
    byteLength (as ++ bs) = byteLength as + byteLength bs := by
  induction as with
  | nil => exact (Nat.zero_add _).symm
  | cons c cs ih => rw [List.cons_append, byteLength_cons, byteLength_cons, ih, Nat.add_assoc]

/-- What follows the first `n` bytes; `none` past the end and inside a character. -/
def dropBytes? : Nat → List Char → Option (List Char)
  | 0, cs => some cs
  | _ + 1, [] => none
  | n + 1, c :: cs => if c.utf8Size ≤ n + 1 then dropBytes? (n + 1 - c.utf8Size) cs else none

theorem dropBytes?_append (as bs : List Char) :
    dropBytes? (byteLength as) (as ++ bs) = some bs := by
  induction as with
  | nil => simp only [byteLength_nil, List.nil_append, dropBytes?]
  | cons c cs ih =>
    have h : byteLength (c :: cs) = (c.utf8Size + byteLength cs - 1) + 1 := by
      have := c.utf8Size_pos
      simp only [byteLength_cons]
      omega
    rw [h, List.cons_append, dropBytes?, ← h, byteLength_cons, if_pos (Nat.le_add_right _ _),
      Nat.add_sub_cancel_left]
    exact ih

end TinyScript.Text
