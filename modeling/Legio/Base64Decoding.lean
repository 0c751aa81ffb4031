import Legio.Base64
import Mathlib.Data.List.TakeWhile

set_option linter.style.header false

/-! What decoding yields: a text of base64 characters gives the bytes of its groups of four,
and what follows the text decides how the call ends. -/
namespace Base64

open LegioBinary

theorem sextet_spec : ∀ k < 256, ∀ d, sextet (UInt8.ofNat k) = some d →
    d.toNat < 64 ∧ isSpace (UInt8.ofNat k) = false ∧ UInt8.ofNat k ≠ equalsSign := by
  intro k hk d hd
  have hall : ∀ k < 256, ∀ d ∈ sextet (UInt8.ofNat k),
      d.toNat < 64 ∧ isSpace (UInt8.ofNat k) = false ∧ UInt8.ofNat k ≠ equalsSign := by
    decide +kernel
  exact hall k hk d hd

theorem sextet_some {c d : UInt8} (h : sextet c = some d) :
    d.toNat < 64 ∧ isSpace c = false ∧ c ≠ equalsSign := by
  rw [← UInt8.ofNat_toNat (x := c)] at h ⊢
  exact sextet_spec c.toNat c.toNat_lt d h

def Spells (p ds : Binary) : Prop := p.map sextet = ds.map some

theorem spells_length {p ds : Binary} (h : Spells p ds) : p.length = ds.length := by
  have := congrArg List.length h
  rwa [List.length_map, List.length_map] at this

theorem spells_cons {c : UInt8} {p ds : Binary} (h : Spells (c :: p) ds) :
    ∃ d ds', ds = d :: ds' ∧ sextet c = some d ∧ Spells p ds' := by
  cases ds with
  | nil => cases h
  | cons d ds' =>
    obtain ⟨hd, hds⟩ := List.cons.inj h
    exact ⟨d, ds', rfl, hd, hds⟩

theorem scan_value {c d : UInt8} (hd : sextet c = some d) {i : ℕ} (hi : i < intMax)
    (str tab out : Binary) :
    scan i (c :: str) tab out =
      if tab.length = 3 then scan (i + 1) str [] (out ++ groupBytes (tab ++ [d]))
      else scan (i + 1) str (tab ++ [d]) out := by
  obtain ⟨-, hspace, hequals⟩ := sextet_some hd
  rw [scan, if_neg (by rw [hspace]; decide), if_neg hequals, hd]
  exact if_neg hi.ne

def bytesOf : Binary → Binary
  | d0 :: d1 :: d2 :: d3 :: ds => groupBytes [d0, d1, d2, d3] ++ bytesOf ds
  | ds => groupBytes ds

theorem bytesOf_short {ds : Binary} (h : ds.length < 4) : bytesOf ds = groupBytes ds := by
  rcases ds with _ | ⟨d0, _ | ⟨d1, _ | ⟨d2, _ | ⟨d3, ds⟩⟩⟩⟩
  · rfl
  · rfl
  · rfl
  · rfl
  · simp only [List.length_cons] at h
    omega

theorem bytesOf_group {tab : Binary} (h : tab.length = 3) (d : UInt8) (ds : Binary) :
    bytesOf (tab ++ d :: ds) = groupBytes (tab ++ [d]) ++ bytesOf ds := by
  obtain ⟨d0, d1, d2, rfl⟩ := List.length_eq_three.mp h
  rfl

theorem scan_text {tail : Binary} (htail : tail = [] ∨ ∃ rest, tail = equalsSign :: rest)
    (p : Binary) : ∀ {ds tab out : Binary} {i : ℕ}, Spells p ds → tab.length < 4 →
    i + p.length ≤ intMax →
    scan i (p ++ tail) tab out = .returned (out ++ bytesOf (tab ++ ds)) := by
  induction p with
  | nil =>
    intro ds tab out i hp htab hi
    obtain rfl : ds = [] := List.eq_nil_of_length_eq_zero (spells_length hp).symm
    rw [List.append_nil, bytesOf_short htab]
    rcases htail with rfl | ⟨rest, rfl⟩
    · rfl
    · rw [List.nil_append, scan, if_neg (by decide), if_pos rfl]
  | cons c p ih =>
    intro ds tab out i hp htab hi
    obtain ⟨d, ds, rfl, hd, hp⟩ := spells_cons hp
    rw [List.length_cons] at hi
    rw [List.cons_append, scan_value hd (by omega)]
    split_ifs with hthree
    · have hempty : ([] : Binary).length < 4 := Nat.zero_lt_succ 3
      rw [ih hp hempty (by omega), bytesOf_group hthree, List.nil_append, List.append_assoc]
    · have hshort : (tab ++ [d]).length < 4 := by
        rw [List.length_append, List.length_singleton]
        omega
      rw [ih hp hshort (by omega), List.append_assoc]
      rfl

/-- Where what follows a text ends the call in one way, whatever was read before, it does so
after the text. -/
theorem scan_after {tail : Binary} {o : Outcome Binary}
    (htail : ∀ i tab out, scan i tail tab out = o) (p : Binary) :
    ∀ {ds tab out : Binary} {i : ℕ}, Spells p ds → i + p.length ≤ intMax →
    scan i (p ++ tail) tab out = o := by
  induction p with
  | nil => exact fun _ _ => htail ..
  | cons c p ih =>
    intro ds tab out i hp hi
    obtain ⟨d, ds, rfl, hd, hp⟩ := spells_cons hp
    rw [List.length_cons] at hi
    rw [List.cons_append, scan_value hd (by omega)]
    split_ifs
    · exact ih hp (by omega)
    · exact ih hp (by omega)

theorem scan_overflow (tail p : Binary) : ∀ {ds tab out : Binary} {i : ℕ}, Spells p ds →
    i ≤ intMax → intMax < i + p.length → scan i (p ++ tail) tab out = .undefined := by
  induction p with
  | nil =>
    intro ds tab out i _ hi hp
    rw [List.length_nil] at hp
    omega
  | cons c p ih =>
    intro ds tab out i hp hi hlength
    obtain ⟨d, ds, rfl, hd, hp⟩ := spells_cons hp
    rw [List.length_cons] at hlength
    rcases Nat.lt_or_eq_of_le hi with hlt | rfl
    · rw [List.cons_append, scan_value hd hlt]
      split_ifs
      · exact ih hp (by omega) (by omega)
      · exact ih hp (by omega) (by omega)
    · obtain ⟨-, hspace, hequals⟩ := sextet_some hd
      rw [List.cons_append, scan, if_neg (by rw [hspace]; decide), if_neg hequals, hd]
      exact if_pos rfl

def leading (str : Binary) : Binary := str.takeWhile fun c => (sextet c).isSome

def following (str : Binary) : Binary := str.dropWhile fun c => (sextet c).isSome

/-- Decoding ends, by returning or with the exception, and ends alike without the spaces. -/
def SkipsSpaces (str : Binary) : Prop :=
  ∃ o, ((∃ out, o = .returned out) ∨ ∃ what, o = .threw (.invalidArgument what)) ∧
    Ends (fun fuel => fromBase64Impl fuel str) o ∧
    Ends (fun fuel => fromBase64Impl fuel (str.filter fun c => !isSpace c)) o

/-- The first character without a value, if there is one, is no space, and the index can
count the characters before it. -/
def Readable (str : Binary) : Prop :=
  (leading str).length ≤ intMax ∧ ∀ c ∈ (following str).head?, isSpace c = false

instance (str : Binary) : Decidable (Readable str) := inferInstanceAs (Decidable (_ ∧ _))

theorem leading_following (str : Binary) : leading str ++ following str = str :=
  List.takeWhile_append_dropWhile

theorem leading_value {str : Binary} {c : UInt8} (hc : c ∈ leading str) :
    ∃ d, sextet c = some d :=
  Option.isSome_iff_exists.mp (List.mem_takeWhile_imp (p := fun c => (sextet c).isSome) hc)

theorem following_value {str : Binary} {c : UInt8} (hc : c ∈ (following str).head?) :
    sextet c = none := by
  obtain ⟨rest, hrest⟩ := List.head?_eq_some_iff.mp hc
  have hhead := List.head?_dropWhile_not (fun c => (sextet c).isSome) str
  rw [following] at hrest
  rw [hrest] at hhead
  simpa using hhead

theorem leading_spells (str : Binary) :
    Spells (leading str) ((leading str).map fun c => (sextet c).getD 0) := by
  rw [Spells, List.map_map]
  apply List.map_congr_left
  intro c hc
  obtain ⟨d, hd⟩ := leading_value hc
  rw [Function.comp_apply, hd]
  rfl

theorem filter_leading (str tail : Binary) :
    (leading str ++ tail).filter (fun c => !isSpace c) =
      leading str ++ tail.filter fun c => !isSpace c := by
  rw [List.filter_append, List.filter_eq_self.mpr]
  intro c hc
  obtain ⟨d, hd⟩ := leading_value hc
  rw [(sextet_some hd).2.1]
  rfl

theorem ends_leading {str tail : Binary} {o : Outcome Binary} (hrunning : o ≠ .running)
    (h : scan 0 (leading str ++ tail) [] [] = o) :
    Ends (fun fuel => fromBase64Impl fuel (leading str ++ tail)) o :=
  ends_iff.mpr ⟨hrunning, h⟩

theorem readable_of_ends {str : Binary} {o : Outcome Binary} (hundefined : o ≠ .undefined)
    (h : Ends (fun fuel => fromBase64Impl fuel str) o) : Readable str := by
  obtain ⟨hrunning, hscan⟩ := ends_iff.mp h
  rw [← leading_following str] at hscan
  have hlength : (leading str).length ≤ intMax := by
    by_contra hlong
    rw [scan_overflow _ _ (leading_spells str) (Nat.zero_le _) (by omega)] at hscan
    exact hundefined hscan.symm
  refine ⟨hlength, fun c hc => ?_⟩
  by_contra hspace
  rw [Bool.not_eq_false] at hspace
  obtain ⟨rest, hrest⟩ := List.head?_eq_some_iff.mp hc
  have hloops : ∀ i tab out, scan i (following str) tab out = .running := by
    intro i tab out
    rw [hrest, scan, if_pos hspace]
  rw [scan_after hloops _ (leading_spells str) (by omega)] at hscan
  exact hrunning hscan.symm

/-- Decoding ends, alike with spaces and without, for the strings in which no space comes
before the end of the text, and for no others. -/
theorem skipsSpaces_iff (str : Binary) : SkipsSpaces str ↔ Readable str := by
  constructor
  · rintro ⟨o, hkind, hends, -⟩
    refine readable_of_ends ?_ hends
    rintro rfl
    rcases hkind with ⟨out, hout⟩ | ⟨what, hwhat⟩
    · cases hout
    · cases hwhat
  · rintro ⟨hlength, hspace⟩
    have hspells := leading_spells str
    have hfilter : str.filter (fun c => !isSpace c) =
        leading str ++ (following str).filter fun c => !isSpace c := by
      rw [← filter_leading, leading_following]
    have hreturns : ∀ {tail : Binary}, (tail = [] ∨ ∃ rest, tail = equalsSign :: rest) →
        Ends (fun fuel => fromBase64Impl fuel (leading str ++ tail))
          (.returned ([] ++ bytesOf ([] ++ (leading str).map fun c => (sextet c).getD 0))) := by
      intro tail htail
      refine ends_leading (by simp) ?_
      exact scan_text htail _ hspells (Nat.zero_lt_succ 3) (by omega)
    have hends : ∀ {o : Outcome Binary},
        Ends (fun fuel => fromBase64Impl fuel (leading str ++ following str)) o →
        Ends (fun fuel => fromBase64Impl fuel str) o := by
      intro o h
      rwa [leading_following] at h
    rw [SkipsSpaces, hfilter]
    cases hcases : following str with
    | nil =>
      rw [hcases] at hends
      exact ⟨_, Or.inl ⟨_, rfl⟩, hends (hreturns (Or.inl rfl)), hreturns (Or.inl rfl)⟩
    | cons c rest =>
      rw [hcases] at hends
      have hhead : c ∈ (following str).head? := by
        rw [hcases]
        rfl
      have hc := hspace c hhead
      rw [List.filter_cons_of_pos (by rw [hc]; rfl)]
      by_cases hequals : c = equalsSign
      · subst hequals
        exact ⟨_, Or.inl ⟨_, rfl⟩, hends (hreturns (Or.inr ⟨rest, rfl⟩)),
          hreturns (Or.inr ⟨_, rfl⟩)⟩
      · have hthrows : ∀ rest i tab out, scan i (c :: rest) tab out = .threw invalidCharacter := by
          intro rest i tab out
          rw [scan, if_neg (by rw [hc]; decide), if_neg hequals, following_value hhead]
        refine ⟨.threw invalidCharacter, Or.inr ⟨_, rfl⟩, hends ?_, ?_⟩
        · exact ends_leading (by simp) (scan_after (hthrows rest) _ hspells (by omega))
        · exact ends_leading (by simp) (scan_after (hthrows _) _ hspells (by omega))

/-- On a space the decoder goes round its inner loop for ever. -/
theorem space_loops : ¬ ∀ str, SkipsSpaces str := by
  intro h
  obtain ⟨o, -, hends, -⟩ := h (ascii "QU JD")
  obtain ⟨hrunning, hscan⟩ := ends_iff.mp hends
  exact hrunning (hscan.symm.trans (by decide +kernel))

end Base64
