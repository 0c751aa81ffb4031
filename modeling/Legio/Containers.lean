import Mathlib.Data.List.AList
import Mathlib.Data.List.Sort
import Mathlib.Data.Finset.Card

set_option linter.style.header false

/-! Finite maps with the operations of an unordered map container: `emplace` keeps an
existing entry, `erase` and `eraseIf` remove entries. The entry list stands for one
iteration order; equality of contents is equality of `lookup`. Ordered sets are finite
sets that are iterated in increasing order. -/
namespace Containers

abbrev UnorderedMap (α β : Type) := AList (fun _ : α => β)

variable {α β : Type}

def keySet (m : UnorderedMap α β) : Finset α := ⟨m.keys, m.keys_nodup⟩

def eraseIf (p : α → β → Bool) (m : UnorderedMap α β) : UnorderedMap α β :=
  ⟨m.entries.filter fun e => !p e.1 e.2, m.nodupKeys.sublist List.filter_sublist⟩

@[simp] theorem mem_keySet (m : UnorderedMap α β) (a : α) : a ∈ keySet m ↔ a ∈ m := Iff.rfl

@[simp] theorem keySet_empty : keySet (∅ : UnorderedMap α β) = ∅ := rfl

variable [DecidableEq α]

def emplace (a : α) (b : β) (m : UnorderedMap α β) : UnorderedMap α β :=
  if a ∈ m then m else m.insert a b

theorem mem_iff_lookup {m : UnorderedMap α β} {a : α} : a ∈ m ↔ ∃ b, m.lookup a = some b := by
  rw [← AList.lookup_isSome, Option.isSome_iff_exists]

@[simp] theorem mem_emplace (m : UnorderedMap α β) (a a' : α) (b : β) :
    a' ∈ emplace a b m ↔ a' = a ∨ a' ∈ m := by
  unfold emplace
  split_ifs with h
  · constructor
    · exact Or.inr
    · rintro (rfl | h')
      · exact h
      · exact h'
  · rw [AList.mem_insert]

theorem lookup_emplace (m : UnorderedMap α β) (a a' : α) (b : β) :
    (emplace a b m).lookup a' =
      if a' = a ∧ a ∉ m then some b else m.lookup a' := by
  unfold emplace
  by_cases h : a ∈ m
  · simp [h]
  · by_cases ha : a' = a
    · subst ha; simp [h]
    · simp [h, ha, AList.lookup_insert_ne ha]

theorem lookup_emplace_of_notMem {m : UnorderedMap α β} {a : α} (b : β) (h : a ∉ m) :
    (emplace a b m).lookup a = some b := by
  simp [lookup_emplace, h]

theorem lookup_emplace_ne (m : UnorderedMap α β) {a a' : α} (b : β) (h : a' ≠ a) :
    (emplace a b m).lookup a' = m.lookup a' := by
  simp [lookup_emplace, h]

theorem lookup_emplace_of_lookup {m : UnorderedMap α β} {a a' : α} {b b' : β}
    (h : m.lookup a' = some b') : (emplace a b m).lookup a' = some b' := by
  rw [lookup_emplace, if_neg, h]
  rintro ⟨rfl, hn⟩
  exact hn (mem_iff_lookup.mpr ⟨b', h⟩)

theorem keySet_emplace (m : UnorderedMap α β) (a : α) (b : β) :
    keySet (emplace a b m) = insert a (keySet m) := by
  ext a'
  simp

theorem keySet_erase (m : UnorderedMap α β) (a : α) :
    keySet (m.erase a) = (keySet m).erase a := by
  ext a'
  simp

theorem lookup_erase_some {m : UnorderedMap α β} {a a' : α} {b : β} :
    (m.erase a).lookup a' = some b ↔ a' ≠ a ∧ m.lookup a' = some b := by
  by_cases h : a' = a
  · subst h; simp
  · simp [AList.lookup_erase_ne h, h]

theorem lookup_eraseIf {p : α → β → Bool} {m : UnorderedMap α β} {a : α} {b : β} :
    (eraseIf p m).lookup a = some b ↔ m.lookup a = some b ∧ p a b = false := by
  rw [← Option.mem_def, AList.mem_lookup_iff, ← Option.mem_def, AList.mem_lookup_iff]
  simp [eraseIf]

theorem mem_entries {m : UnorderedMap α β} {a : α} {b : β} :
    (⟨a, b⟩ : Sigma fun _ : α => β) ∈ m.entries ↔ m.lookup a = some b := by
  rw [← AList.mem_lookup_iff, Option.mem_def]

/-- The elements in increasing order, computed by insertion so that closed terms evaluate. -/
def iterate [LinearOrder α] (s : Finset α) : List α :=
  s.val.liftOn (List.insertionSort (· ≤ ·)) fun _ _ h =>
    (((List.perm_insertionSort _ _).trans h).trans
      (List.perm_insertionSort _ _).symm).eq_of_pairwise'
        (List.pairwise_insertionSort _ _) (List.pairwise_insertionSort _ _)

omit [DecidableEq α] in
theorem coe_iterate [LinearOrder α] (s : Finset α) : (iterate s : Multiset α) = s.val := by
  obtain ⟨l, hl⟩ := s
  induction l using Quot.inductionOn with
  | _ l => exact Quot.sound (List.perm_insertionSort (· ≤ ·) l)

omit [DecidableEq α] in
@[simp] theorem mem_iterate [LinearOrder α] (s : Finset α) (a : α) :
    a ∈ iterate s ↔ a ∈ s := by
  rw [← Multiset.mem_coe, coe_iterate, Finset.mem_val]

omit [DecidableEq α] in
@[simp] theorem length_iterate [LinearOrder α] (s : Finset α) :
    (iterate s).length = s.card := by
  rw [← Multiset.coe_card, coe_iterate, Finset.card_val]

end Containers
