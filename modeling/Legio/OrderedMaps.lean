import Mathlib.Data.Finset.Card
import Mathlib.Data.List.Basic
import Mathlib.Data.List.Pairwise

set_option linter.style.header false

/-! Finite maps in the order of their keys, with the operations of an ordered map container:
`emplace` keeps an entry that is there, `erase` says how many entries it removed. -/
namespace OrderedMaps

variable {κ α : Type} [LinearOrder κ]

structure OrderedMap (κ α : Type) [LinearOrder κ] where
  entries : List (κ × α)
  sorted : entries.Pairwise fun a b => a.1 < b.1

def insertEntry (k : κ) (v : α) : List (κ × α) → List (κ × α)
  | [] => [(k, v)]
  | e :: entries =>
    if k < e.1 then (k, v) :: e :: entries
    else if k = e.1 then e :: entries
    else e :: insertEntry k v entries

theorem mem_insertEntry {k : κ} {v : α} {entries : List (κ × α)} {e : κ × α}
    (h : e ∈ insertEntry k v entries) : e = (k, v) ∨ e ∈ entries := by
  induction entries with
  | nil => exact .inl (List.mem_singleton.mp h)
  | cons first entries ih =>
    rw [insertEntry] at h
    split_ifs at h with hlt heq
    · exact List.mem_cons.mp h
    · exact .inr h
    · rcases List.mem_cons.mp h with rfl | hrest
      · exact .inr List.mem_cons_self
      · exact (ih hrest).imp_right (List.mem_cons_of_mem _)

theorem sorted_insertEntry (k : κ) (v : α) {entries : List (κ × α)}
    (h : entries.Pairwise fun a b => a.1 < b.1) :
    (insertEntry k v entries).Pairwise fun a b => a.1 < b.1 := by
  induction entries with
  | nil => exact List.pairwise_singleton _ _
  | cons first entries ih =>
    obtain ⟨hfirst, hrest⟩ := List.pairwise_cons.mp h
    rw [insertEntry]
    split_ifs with hlt heq
    · refine List.pairwise_cons.mpr ⟨?_, h⟩
      intro e he
      rcases List.mem_cons.mp he with rfl | he
      · exact hlt
      · exact hlt.trans (hfirst e he)
    · exact h
    · refine List.pairwise_cons.mpr ⟨?_, ih hrest⟩
      intro e he
      rcases mem_insertEntry he with rfl | he
      · exact lt_of_le_of_ne (not_lt.mp hlt) (Ne.symm heq)
      · exact hfirst e he

namespace OrderedMap

def empty : OrderedMap κ α := ⟨[], List.Pairwise.nil⟩

def emplace (k : κ) (v : α) (m : OrderedMap κ α) : OrderedMap κ α :=
  ⟨insertEntry k v m.entries, sorted_insertEntry k v m.sorted⟩

def erase (k : κ) (m : OrderedMap κ α) : ℕ × OrderedMap κ α :=
  (m.entries.countP fun e => e.1 = k,
    ⟨m.entries.filter fun e => e.1 ≠ k, m.sorted.filter _⟩)

def begin? (m : OrderedMap κ α) : Option (κ × α) := m.entries.head?

def Contains (m : OrderedMap κ α) (k : κ) : Prop := ∃ v, (k, v) ∈ m.entries

theorem mem_emplace {m : OrderedMap κ α} {k : κ} (v : α) (h : ¬ m.Contains k) (e : κ × α) :
    e ∈ (m.emplace k v).entries ↔ e = (k, v) ∨ e ∈ m.entries := by
  refine ⟨mem_insertEntry, ?_⟩
  have main : ∀ entries : List (κ × α), (∀ v', (k, v') ∉ entries) →
      e = (k, v) ∨ e ∈ entries → e ∈ insertEntry k v entries := by
    intro entries hnew he
    induction entries with
    | nil => simpa [insertEntry] using he
    | cons first entries ih =>
      have hne : k ≠ first.1 := by
        rintro rfl
        exact hnew first.2 List.mem_cons_self
      have hrest := ih fun v' hv' => hnew v' (List.mem_cons_of_mem _ hv')
      rw [insertEntry]
      split_ifs with hlt
      · exact List.mem_cons.mpr he
      · rcases he with rfl | he
        · exact List.mem_cons_of_mem _ (hrest (.inl rfl))
        · rcases List.mem_cons.mp he with rfl | he
          · exact List.mem_cons_self
          · exact List.mem_cons_of_mem _ (hrest (.inr he))
  exact main m.entries fun v' hv' => h ⟨v', hv'⟩

theorem mem_erase (m : OrderedMap κ α) (k : κ) (e : κ × α) :
    e ∈ (m.erase k).2.entries ↔ e ∈ m.entries ∧ e.1 ≠ k := by
  simp [erase]

theorem erase_count (m : OrderedMap κ α) (k : κ) : (m.erase k).1 ≠ 0 ↔ m.Contains k := by
  rw [erase, Nat.ne_zero_iff_zero_lt, List.countP_pos_iff]
  constructor
  · rintro ⟨e, he, hkey⟩
    obtain rfl := of_decide_eq_true hkey
    exact ⟨e.2, he⟩
  · rintro ⟨v, hv⟩
    exact ⟨(k, v), hv, decide_eq_true rfl⟩

theorem begin_mem {m : OrderedMap κ α} {e : κ × α} (h : m.begin? = some e) : e ∈ m.entries :=
  List.mem_of_head? h

theorem begin_le {m : OrderedMap κ α} {e e' : κ × α} (h : m.begin? = some e)
    (he' : e' ∈ m.entries) : e.1 ≤ e'.1 := by
  obtain ⟨entries, hentries⟩ := List.head?_eq_some_iff.mp h
  have hsorted := m.sorted
  rw [hentries] at hsorted he'
  rcases List.mem_cons.mp he' with rfl | hrest
  · exact le_rfl
  · exact ((List.pairwise_cons.mp hsorted).1 e' hrest).le

end OrderedMap

end OrderedMaps
