namespace SafeCalls

/-!
# Orders of keys

A key order is a decidable strict order in which two keys of which neither precedes the other are
equal. Texts are ordered by their characters, and so by the bytes of their UTF-8 form.
-/

class KeyOrder (κ : Type) extends LT κ where
  decidableLT : DecidableLT κ
  irrefl : ∀ a : κ, ¬ a < a
  trans : ∀ {a b c : κ}, a < b → b < c → a < c
  connex : ∀ {a b : κ}, ¬ a < b → ¬ b < a → a = b

instance decidableLTOfKeyOrder {κ : Type} [KeyOrder κ] : DecidableLT κ := KeyOrder.decidableLT

namespace KeyOrder

variable {κ : Type} [KeyOrder κ]

theorem ne_of_lt {a b : κ} (h : a < b) : a ≠ b := fun e => irrefl b (e ▸ h)

theorem asymm {a b : κ} (h : a < b) : ¬ b < a := fun h' => irrefl a (trans h h')

end KeyOrder

instance : KeyOrder UInt32 where
  decidableLT := inferInstance
  irrefl _ := UInt32.lt_irrefl _
  trans := UInt32.lt_trans
  connex h h' := UInt32.le_antisymm (UInt32.not_lt.1 h') (UInt32.not_lt.1 h)

instance : KeyOrder String where
  decidableLT := inferInstance
  irrefl := String.lt_irrefl
  trans := String.lt_trans
  connex h h' := String.le_antisymm (String.not_lt.1 h') (String.not_lt.1 h)

end SafeCalls
