import Legio.BinaryCodec

set_option linter.style.header false

/-! The base64 functions of binary.cpp and the choice that `Node::connect` makes. The loops
take a bound on their steps; what is left of the input stands for the index into it. The
indices are of type `int`, so their overflow is an outcome of its own. -/
namespace Base64

open LegioBinary

/-- `running` after the allowed steps, or ended: at an overflow, for which the language
defines nothing, with an exception, or with a value. -/
inductive Outcome (α : Type) where
  | running
  | undefined
  | threw (error : Error)
  | returned (value : α)
  deriving DecidableEq

def Outcome.bind {α β : Type} (o : Outcome α) (f : α → Outcome β) : Outcome β :=
  match o with
  | .running => .running
  | .undefined => .undefined
  | .threw error => .threw error
  | .returned value => f value

def intMax : ℕ := 2 ^ 31 - 1

def standardTab : Binary :=
  ascii "ABCDEFGHIJKLMNOPQRSTUVWXYZabcdefghijklmnopqrstuvwxyz0123456789+/"

def urlTab : Binary :=
  ascii "ABCDEFGHIJKLMNOPQRSTUVWXYZabcdefghijklmnopqrstuvwxyz0123456789-_"

def equalsSign : UInt8 := 0x3D

/-- `to_base64_impl` from index `i` on. -/
def toBase64Impl (tab : Binary) (padding : Bool) : ℕ → Binary → Binary → Outcome Binary
  | i, d0 :: d1 :: d2 :: bin, out =>
    if intMax < i + 3 then .undefined
    else
      toBase64Impl tab padding (i + 3) bin (out ++
        [tab.getD (d0 >>> 2).toNat 0, tab.getD (((d0 &&& 3) <<< 4) ||| (d1 >>> 4)).toNat 0,
          tab.getD (((d1 &&& 0x0F) <<< 2) ||| (d2 >>> 6)).toNat 0,
          tab.getD (d2 &&& 0x3F).toNat 0])
  | _, [d0, d1], out =>
    .returned (out ++ [tab.getD (d0 >>> 2).toNat 0,
      tab.getD (((d0 &&& 3) <<< 4) ||| (d1 >>> 4)).toNat 0,
      tab.getD ((d1 &&& 0x0F) <<< 2).toNat 0] ++ if padding then [equalsSign] else [])
  | _, [d0], out =>
    .returned (out ++ [tab.getD (d0 >>> 2).toNat 0, tab.getD ((d0 &&& 3) <<< 4).toNat 0] ++
      (if padding then [equalsSign] else []) ++ if padding then [equalsSign] else [])
  | _, [], out => .returned out

def toBase64 (bin : Binary) (padding : Bool) : Outcome Binary :=
  toBase64Impl standardTab padding 0 bin []

def toBase64Url (bin : Binary) (padding : Bool) : Outcome Binary :=
  toBase64Impl urlTab padding 0 bin []

/-- `std::isspace` in the default locale. -/
def isSpace (c : UInt8) : Bool := decide (c = 0x20) || decide (0x09 ≤ c ∧ c ≤ 0x0D)

def sextet (c : UInt8) : Option UInt8 :=
  if 'A'.toUInt8 ≤ c ∧ c ≤ 'Z'.toUInt8 then some (c - 'A'.toUInt8)
  else if 'a'.toUInt8 ≤ c ∧ c ≤ 'z'.toUInt8 then some (c + 26 - 'a'.toUInt8)
  else if '0'.toUInt8 ≤ c ∧ c ≤ '9'.toUInt8 then some (c + 52 - '0'.toUInt8)
  else if c = '+'.toUInt8 ∨ c = '-'.toUInt8 then some 62
  else if c = '/'.toUInt8 ∨ c = '_'.toUInt8 then some 63
  else none

def invalidCharacter : Error := .invalidArgument "Invalid character in base64"

/-- The inner loop: `tab` holds the first `j` values, the others being zero. At a space it
goes on without another index. -/
def readGroup : ℕ → ℕ → Binary → Binary → Outcome (ℕ × Binary × Binary)
  | 0, _, _, _ => .running
  | _ + 1, i, [], tab => .returned (i, [], tab)
  | fuel + 1, i, c :: str, tab =>
    if tab.length < 4 then
      if isSpace c then readGroup fuel i (c :: str) tab
      else if c = equalsSign then .returned (i, c :: str, tab)
      else
        match sextet c with
        | none => .threw invalidCharacter
        | some d => if i = intMax then .undefined else readGroup fuel (i + 1) str (tab ++ [d])
    else .returned (i, c :: str, tab)

def groupBytes (tab : Binary) : Binary :=
  let t k := tab.getD k 0
  if 0 < tab.length then
    [(t 0 <<< 2) ||| (t 1 >>> 4)] ++
      if 1 < tab.length then
        [(t 1 <<< 4) ||| (t 2 >>> 2)] ++ if 2 < tab.length then [(t 2 <<< 6) ||| t 3] else []
      else []
  else []

/-- The outer loop of `from_base64_impl`. -/
def readGroups : ℕ → ℕ → Binary → Binary → Outcome Binary
  | 0, _, _, _ => .running
  | _ + 1, _, [], out => .returned out
  | fuel + 1, i, c :: str, out =>
    if c = equalsSign then .returned out
    else (readGroup fuel i (c :: str) []).bind fun (i, str, tab) =>
      readGroups fuel i str (out ++ groupBytes tab)

def fromBase64Impl (fuel : ℕ) (str : Binary) : Outcome Binary := readGroups fuel 0 str []

def fromBase64 (fuel : ℕ) (str : Binary) : Outcome Binary := fromBase64Impl fuel str

def fromBase64Url (fuel : ℕ) (str : Binary) : Outcome Binary := fromBase64Impl fuel str

def matchPrefix (str pre : Binary) : Bool := pre.isPrefixOf str

inductive Connection where
  | webSocket (url : Binary)
  | peer (remoteId : Binary)
  deriving DecidableEq

def connect (fuel : ℕ) (url : Binary) : Outcome Connection :=
  if matchPrefix url (ascii "ws:") || matchPrefix url (ascii "wss:") then
    .returned (.webSocket url)
  else (fromBase64Url fuel url).bind fun remoteId => .returned (.peer remoteId)

/-- From some number of steps on, the outcome is this one. -/
def Ends {α : Type} (call : ℕ → Outcome α) (o : Outcome α) : Prop :=
  o ≠ .running ∧ ∃ enough, ∀ fuel, enough ≤ fuel → call fuel = o

theorem ends_unique {α : Type} {call : ℕ → Outcome α} {o o' : Outcome α} (h : Ends call o)
    (h' : Ends call o') : o = o' := by
  obtain ⟨-, enough, hcall⟩ := h
  obtain ⟨-, enough', hcall'⟩ := h'
  rw [← hcall (max enough enough') (Nat.le_max_left ..),
    ← hcall' (max enough enough') (Nat.le_max_right ..)]

/-- The decoder as a single loop over the characters. -/
def scan : ℕ → Binary → Binary → Binary → Outcome Binary
  | _, [], tab, out => .returned (out ++ groupBytes tab)
  | i, c :: str, tab, out =>
    if isSpace c then .running
    else if c = equalsSign then .returned (out ++ groupBytes tab)
    else
      match sextet c with
      | none => .threw invalidCharacter
      | some d =>
        if i = intMax then .undefined
        else if tab.length = 3 then scan (i + 1) str [] (out ++ groupBytes (tab ++ [d]))
        else scan (i + 1) str (tab ++ [d]) out

theorem readGroup_space {c : UInt8} (hc : isSpace c = true) {tab : Binary} (htab : tab.length < 4)
    (fuel i : ℕ) (str : Binary) : readGroup fuel i (c :: str) tab = .running := by
  induction fuel with
  | zero => rfl
  | succ fuel ih => rw [readGroup, if_pos htab, if_pos hc, ih]

/-- The two loops go through the characters as the single one does. -/
theorem readGroup_scan (str : Binary) : ∀ {fuel fuel' i : ℕ} {tab out : Binary},
    tab.length < 4 → 5 ≤ fuel + tab.length → str.length + 5 ≤ fuel' →
    ((readGroup fuel i str tab).bind fun (i, str, tab) =>
      readGroups fuel' i str (out ++ groupBytes tab)) = scan i str tab out := by
  induction str with
  | nil =>
    intro fuel fuel' i tab out htab hfuel hfuel'
    obtain ⟨fuel, rfl⟩ : ∃ k, fuel = k + 1 := ⟨fuel - 1, by omega⟩
    obtain ⟨fuel', rfl⟩ : ∃ k, fuel' = k + 1 := ⟨fuel' - 1, by omega⟩
    rfl
  | cons c str ih =>
    intro fuel fuel' i tab out htab hfuel hfuel'
    obtain ⟨fuel, rfl⟩ : ∃ k, fuel = k + 1 := ⟨fuel - 1, by omega⟩
    obtain ⟨fuel', rfl⟩ : ∃ k, fuel' = k + 1 := ⟨fuel' - 1, by omega⟩
    rw [List.length_cons] at hfuel'
    by_cases hspace : isSpace c = true
    · rw [readGroup_space hspace htab, scan, if_pos hspace]
      rfl
    rw [readGroup, if_pos htab, if_neg hspace, scan, if_neg hspace]
    by_cases hequals : c = equalsSign
    · rw [if_pos hequals, if_pos hequals]
      exact if_pos hequals
    rw [if_neg hequals, if_neg hequals]
    cases hd : sextet c with
    | none => rfl
    | some d =>
      dsimp only
      by_cases hmax : i = intMax
      · rw [if_pos hmax, if_pos hmax]
        rfl
      rw [if_neg hmax, if_neg hmax]
      split_ifs with hthree
      · -- the group is full, and the outer loop begins the next one
        obtain ⟨fuel, rfl⟩ : ∃ k, fuel = k + 1 := ⟨fuel - 1, by omega⟩
        have hfull : ¬ (tab ++ [d]).length < 4 := by
          rw [List.length_append, List.length_singleton]
          omega
        have hreturned : readGroup (fuel + 1) (i + 1) str (tab ++ [d]) =
            .returned (i + 1, str, tab ++ [d]) := by
          cases str with
          | nil => rfl
          | cons c' str => rw [readGroup, if_neg hfull]
        rw [hreturned]
        change readGroups (fuel' + 1) (i + 1) str (out ++ groupBytes (tab ++ [d])) = _
        have hempty : out ++ groupBytes (tab ++ [d]) ++ groupBytes [] =
            out ++ groupBytes (tab ++ [d]) := List.append_nil _
        cases str with
        | nil =>
          rw [scan, hempty]
          rfl
        | cons c' str =>
          rw [readGroups]
          split_ifs with hequals'
          · have hspace' : ¬ isSpace c' = true := by
              rw [hequals']
              decide
            rw [scan, if_neg hspace', if_pos hequals', hempty]
          · exact ih (Nat.zero_lt_succ 3) (by rw [List.length_nil]; omega) (by omega)
      · apply ih
        · rw [List.length_append, List.length_singleton]
          omega
        · rw [List.length_append, List.length_singleton]
          omega
        · omega

theorem fromBase64Impl_scan {fuel : ℕ} {str : Binary} (h : str.length + 6 ≤ fuel) :
    fromBase64Impl fuel str = scan 0 str [] [] := by
  obtain ⟨fuel, rfl⟩ : ∃ k, fuel = k + 1 := ⟨fuel - 1, by omega⟩
  cases str with
  | nil => rfl
  | cons c str =>
    rw [fromBase64Impl, readGroups]
    split_ifs with hequals
    · have hspace : ¬ isSpace c = true := by
        rw [hequals]
        decide
      rw [scan, if_neg hspace, if_pos hequals]
      rfl
    · exact readGroup_scan (c :: str) (Nat.zero_lt_succ 3) (by rw [List.length_nil]; omega)
        (by omega)

theorem ends_iff {str : Binary} {o : Outcome Binary} :
    Ends (fun fuel => fromBase64Impl fuel str) o ↔ o ≠ .running ∧ scan 0 str [] [] = o := by
  constructor
  · rintro ⟨hended, enough, hcall⟩
    refine ⟨hended, ?_⟩
    rw [← fromBase64Impl_scan (Nat.le_max_left (str.length + 6) enough)]
    exact hcall _ (Nat.le_max_right ..)
  · rintro ⟨hended, hscan⟩
    exact ⟨hended, str.length + 6, fun fuel hfuel => (fromBase64Impl_scan hfuel).trans hscan⟩

end Base64
