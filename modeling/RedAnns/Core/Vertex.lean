import Mathlib.Data.Prod.Lex
import Mathlib.Tactic

/-!
The fixed-width types of `core/store/vertex.hpp` and their orders.

A server id is one unsigned byte and a vertex or local id an unsigned 32-bit word. An item
(`item_t`, `ikey_t`) is a pair of a server and a local id, ordered as `std::pair` is: by the
server first (`Item.lt_iff`).
-/

namespace RedAnns

instance linearOrderUInt8 : LinearOrder UInt8 where
  le_refl a := UInt8.le_refl a
  le_trans _ _ _ h₁ h₂ := UInt8.le_trans h₁ h₂
  le_antisymm _ _ h₁ h₂ := UInt8.le_antisymm h₁ h₂
  le_total a b := UInt8.le_total a b
  lt_iff_le_not_ge a b := by
    rw [UInt8.lt_iff_toNat_lt, UInt8.le_iff_toNat_le, UInt8.le_iff_toNat_le]; omega
  toDecidableLE := inferInstance
  toDecidableLT := inferInstance
  toDecidableEq := inferInstance

instance linearOrderUInt32 : LinearOrder UInt32 where
  le_refl a := UInt32.le_refl a
  le_trans _ _ _ h₁ h₂ := UInt32.le_trans h₁ h₂
  le_antisymm _ _ h₁ h₂ := UInt32.le_antisymm h₁ h₂
  le_total a b := UInt32.le_total a b
  lt_iff_le_not_ge a b := by
    rw [UInt32.lt_iff_toNat_lt, UInt32.le_iff_toNat_le, UInt32.le_iff_toNat_le]; omega
  toDecidableLE := inferInstance
  toDecidableLT := inferInstance
  toDecidableEq := inferInstance

/-- A quantifier over a list is decided along the list, also where the words are a finite type. -/
instance (priority := 2000) decidableForallMem {α : Type*} (p : α → Prop) [DecidablePred p]
    (l : List α) : Decidable (∀ x ∈ l, p x) :=
  List.decidableBAll p l

/-- `vertex_id_t`, the id of a vertex in the whole base set. -/
abbrev VertexId := UInt32

/-- `server_id_t`, one byte. -/
abbrev ServerId := UInt8

/-- `local_id_t`, the slot of a vertex on its server. -/
abbrev LocalId := UInt32

/-- `item_t`, also called `ikey_t`: where a vertex is stored. -/
@[ext]
structure Item where
  first : ServerId
  second : LocalId
  deriving Inhabited

namespace Item

/-- The pair an item is, under the lexicographic order of `std::pair`. -/
def toPair (t : Item) : ServerId ×ₗ LocalId := toLex (t.first, t.second)

lemma toPair_injective : Function.Injective toPair := fun a b h => by
  have h' := congrArg ofLex h
  simp only [toPair, ofLex_toLex, Prod.mk.injEq] at h'
  exact Item.ext h'.1 h'.2

instance : LinearOrder Item := LinearOrder.lift' toPair toPair_injective

lemma lt_iff {a b : Item} :
    a < b ↔ a.first < b.first ∨ (a.first = b.first ∧ a.second < b.second) := by
  show a.toPair < b.toPair ↔ _
  simp [toPair, Prod.Lex.toLex_lt_toLex]

end Item

end RedAnns
