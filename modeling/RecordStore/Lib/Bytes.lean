import RecordStore.Lib.Table

/-!
# Lib.Bytes — byte strings as ordered keys

Byte strings are compared lexicographically, byte by byte.  This file has the encodings that build
composite keys (UTF-8 text, big-endian integers), their injectivity, and the key range that a
prefix scan reads: `prefixSuccessor p` is the exclusive upper end of the scan over the keys that
start with `p`.
-/

namespace RecordStore.Lib

/-- A byte string. -/
abbrev Bytes := List UInt8

instance Bytes.lawfulBEq : LawfulBEq Bytes := inferInstance

/-! ## Text -/

section Text

/-- The UTF-8 encoding of a text. -/
def asBytes (s : String) : Bytes := s.toList.flatMap String.utf8EncodeChar

/-- Visible ASCII and tabs: what `HeaderValue::to_str` accepts. -/
def isVisible (b : Bytes) : Bool := b.all fun x => 0x20 ≤ x && x < 0x7F || x = 0x09

/-- One hexadecimal digit. -/
def hexDigit (n : Nat) : Char := (Nat.toDigits 16 (n % 16)).headD '0'

theorem hexDigit_mod (n : Nat) : hexDigit (n % 16) = hexDigit n := by rw [hexDigit, hexDigit, Nat.mod_mod]

def hexDigits (b : Bytes) : List Char := b.flatMap fun x => [hexDigit (x.toNat / 16), hexDigit x.toNat]

/-- `hex::encode`. -/
def hexEncode (b : Bytes) : String := String.ofList (hexDigits b)

/-- The text a byte string encodes, if it is valid UTF-8. -/
def fromUtf8 (b : Bytes) : Option String := String.fromUTF8? b.toByteArray

theorem toByteArray_asBytes (s : String) : (asBytes s).toByteArray = s.toByteArray := by
  rw [← String.utf8Encode_toList]
  rfl

theorem asBytes_inj {s t : String} (h : asBytes s = asBytes t) : s = t := by
  have e : s.toByteArray = t.toByteArray := by rw [← toByteArray_asBytes, ← toByteArray_asBytes, h]
  exact String.toByteArray_inj.mp e

theorem fromUtf8_asBytes (s : String) : fromUtf8 (asBytes s) = some s := by
  unfold fromUtf8 String.fromUTF8?
  rw [toByteArray_asBytes]
  have h : s.toByteArray.IsValidUTF8 := s.isValidUTF8
  simp [h, String.fromUTF8]

/-- The bytes of one character: the character itself below `0x80`, else bytes of `0x80..0xf7`. -/
theorem mem_utf8EncodeChar {c : Char} {b : UInt8} (h : b ∈ String.utf8EncodeChar c) :
    (b.toNat = c.toNat ∧ c.toNat < 0x80) ∨ (0x80 ≤ b.toNat ∧ b.toNat < 0xf8) := by
  unfold String.utf8EncodeChar at h
  have hv : c.val.toNat = c.toNat := rfl
  simp only [hv] at h
  split_ifs at h with h1 h2 h3
  · simp only [List.mem_cons, List.not_mem_nil, or_false] at h
    subst h
    left
    simp only [UInt8.toNat_ofNat']
    omega
  all_goals
    right
    simp only [List.mem_cons, List.not_mem_nil, or_false] at h
    rcases h with rfl | rfl | rfl | rfl <;> simp only [UInt8.toNat_ofNat'] <;> omega

theorem mem_asBytes {s : String} {b : UInt8} (h : b ∈ asBytes s) :
    (∃ c ∈ s.toList, b.toNat = c.toNat ∧ c.toNat < 0x80) ∨ (0x80 ≤ b.toNat ∧ b.toNat < 0xf8) := by
  obtain ⟨c, hc, hb⟩ := List.mem_flatMap.mp h
  rcases mem_utf8EncodeChar hb with h1 | h1
  · exact .inl ⟨c, hc, h1⟩
  · exact .inr h1

end Text

/-! ## Big-endian integers -/

section BigEndian

/-- The last `w` bytes of `n`, most significant first. -/
def beBytes : Nat → Nat → Bytes
  | 0, _ => []
  | w + 1, n => UInt8.ofNat (n / 256 ^ w) :: beBytes w n

/-- The number that a big-endian byte string denotes. -/
def beValue (b : Bytes) : Nat := b.foldl (fun n x => 256 * n + x.toNat) 0

@[simp] theorem length_beBytes (w n : Nat) : (beBytes w n).length = w := by
  induction w with
  | zero => rfl
  | succ w ih => simp [beBytes, ih]

theorem foldl_beBytes (w n acc : Nat) :
    (beBytes w n).foldl (fun n x => 256 * n + x.toNat) acc = 256 ^ w * acc + n % 256 ^ w := by
  induction w generalizing acc with
  | zero => simp [beBytes, Nat.mod_one]
  | succ w ih =>
    rw [beBytes, List.foldl_cons, ih]
    have hq : (UInt8.ofNat (n / 256 ^ w)).toNat = n / 256 ^ w % 256 := by simp
    have hm : n % 256 ^ (w + 1) = 256 ^ w * (n / 256 ^ w % 256) + n % 256 ^ w := by
      rw [pow_succ, Nat.mod_mul, add_comm]
    rw [hq, hm, pow_succ]
    ring

theorem beValue_beBytes {w n : Nat} (h : n < 256 ^ w) : beValue (beBytes w n) = n := by
  unfold beValue
  rw [foldl_beBytes, Nat.mod_eq_of_lt h]
  simp

end BigEndian

/-! ## Prefix ranges -/

section Ranges

/-- The exclusive upper end of the keys that start with `p`: the last byte that is not `0xff` is
incremented and what follows it is cut off; a string of `0xff` only gets one more. -/
def prefixSuccessor (p : Bytes) : Bytes :=
  match p.reverse.dropWhile (· == 255) with
  | [] => p ++ [255]
  | b :: r => r.reverse ++ [b + 1]

theorem compare_append (p x y : Bytes) : compare (p ++ x) (p ++ y) = compare x y := by
  induction p with
  | nil => rfl
  | cons a p ih =>
    show (List.compareLex compare (a :: (p ++ x)) (a :: (p ++ y))) = _
    have hself : compare a a = .eq := Std.ReflCmp.compare_self
    rw [List.compareLex_cons_cons, hself]
    exact ih

theorem compare_cons (a b : UInt8) (x y : Bytes) :
    compare (a :: x) (b :: y) = (compare a b).then (compare x y) := List.compareLex_cons_cons

theorem isLE_compare_append (p x : Bytes) : (compare p (p ++ x)).isLE = true := by
  have h := compare_append p [] x
  rw [List.append_nil] at h
  rw [h]
  cases x <;> rfl

/-- A scan that starts at `p ++ [0]` starts right after `p`. -/
theorem isLE_compare_append_zero {p k : Bytes} : (compare (p ++ [0]) k).isLE ↔ compare p k = .lt := by
  induction p generalizing k with
  | nil =>
    cases k with
    | nil => simp [compare, List.compareLex_nil_nil, List.compareLex_cons_nil]
    | cons c k =>
      have hzero : (compare (0 : UInt8) c).isLE := Std.isLE_compare.mpr (UInt8.le_iff_toNat_le.mpr (Nat.zero_le _))
      have hnil : (compare ([] : Bytes) k).isLE := List.isLE_compareLex_nil_left
      have hless : compare ([] : Bytes) (c :: k) = .lt := rfl
      rw [List.nil_append, compare_cons, Ordering.isLE_then_iff_and, hless]
      exact ⟨fun _ => rfl, fun _ => ⟨hzero, .inr hnil⟩⟩
  | cons a p ih =>
    cases k with
    | nil => simp [compare, List.compareLex_cons_nil]
    | cons c k =>
      rw [List.cons_append, compare_cons, compare_cons, Ordering.isLE_then_iff_and, Ordering.then_eq_lt, ih]
      cases compare a c <;> simp

/-- Either all of `p` is `0xff`, or `p` is `q`, a smaller byte, and a tail of `0xff`. -/
theorem prefixSuccessor_cases (p : Bytes) :
    (p = List.replicate p.length 255 ∧ prefixSuccessor p = p ++ [255]) ∨
    ∃ q b n, b ≠ 255 ∧ p = q ++ b :: List.replicate n 255 ∧ prefixSuccessor p = q ++ [b + 1] := by
  have hsplit := List.takeWhile_append_dropWhile (p := fun x : UInt8 => x == 255) (l := p.reverse)
  have hff : ∀ x ∈ p.reverse.takeWhile (· == 255), x = 255 := by
    intro x hx
    have := List.mem_takeWhile_imp hx
    simpa using this
  have hrep := List.eq_replicate_of_mem hff
  unfold prefixSuccessor
  cases hd : p.reverse.dropWhile (· == 255) with
  | nil =>
    left
    refine ⟨?_, rfl⟩
    rw [hd, List.append_nil] at hsplit
    have hp : p = (p.reverse.takeWhile (· == 255)).reverse := by rw [hsplit, List.reverse_reverse]
    rw [hrep, List.reverse_replicate] at hp
    exact List.eq_replicate_iff.mpr ⟨rfl, fun x hx => by rw [hp] at hx; exact List.eq_of_mem_replicate hx⟩
  | cons b r =>
    right
    have hb : b ≠ 255 := by
      have h := List.head_dropWhile_not (fun x : UInt8 => x == 255) (l := p.reverse) (by rw [hd]; simp)
      simpa [hd] using h
    refine ⟨r.reverse, b, (p.reverse.takeWhile (· == 255)).length, hb, ?_, rfl⟩
    rw [hd, hrep] at hsplit
    have hp := congrArg List.reverse hsplit
    rw [List.reverse_reverse, List.reverse_append, List.reverse_cons, List.reverse_replicate,
      List.append_assoc, List.singleton_append] at hp
    exact hp.symm

/-- Two keys with a common prefix enclose only keys with that prefix. -/
theorem prefix_of_between {q x y k : Bytes} (hlo : (compare (q ++ x) k).isLE)
    (hhi : compare k (q ++ y) = .lt) : q <+: k := by
  induction q generalizing k with
  | nil => exact List.nil_prefix
  | cons a q ih =>
    cases k with
    | nil => exact absurd hlo (by simp [compare, List.compareLex_cons_nil])
    | cons c k =>
      rw [List.cons_append, compare_cons, Ordering.isLE_then_iff_and] at hlo
      rw [List.cons_append, compare_cons, Ordering.then_eq_lt] at hhi
      have hle : a ≤ c := Std.isLE_compare.mp hlo.1
      have hca : c = a := by
        rcases hhi with h | ⟨h, -⟩
        · exact absurd (Std.compare_eq_lt.mp h) (UInt8.not_lt.mpr hle)
        · exact Std.LawfulEqOrd.eq_of_compare h
      subst hca
      have hself : compare c c = .eq := Std.ReflCmp.compare_self
      refine List.cons_prefix_cons.mpr ⟨rfl, ih ?_ ?_⟩
      · simpa [hself] using hlo
      · simpa [hself] using hhi

theorem prefix_of_replicate_le {n : Nat} {x : Bytes}
    (h : (compare (List.replicate n 255) x).isLE) : List.replicate n 255 <+: x := by
  induction n generalizing x with
  | zero => exact List.nil_prefix
  | succ n ih =>
    cases x with
    | nil => exact absurd h (by simp [compare, List.replicate_succ, List.compareLex_cons_nil])
    | cons a x =>
      rw [List.replicate_succ, compare_cons, Ordering.isLE_then_iff_and] at h
      have h1 : (255 : UInt8) ≤ a := Std.isLE_compare.mp h.1
      have ha : (255 : UInt8) = a := by
        have h2 := a.toNat_lt
        rw [UInt8.le_iff_toNat_le] at h1
        apply UInt8.toNat_inj.mp
        simp only [UInt8.reduceToNat] at h1 ⊢
        omega
      subst ha
      rw [List.replicate_succ, List.cons_prefix_cons]
      exact ⟨rfl, ih (by simpa using h.2)⟩

/-- What a prefix scan reads starts with the prefix. -/
theorem prefix_of_inRange {p k : Bytes} (h : InRange p (prefixSuccessor p) k) : p <+: k := by
  obtain ⟨hlo, hhi⟩ := h
  rcases prefixSuccessor_cases p with ⟨hp, -⟩ | ⟨q, b, n, hb, hp, hs⟩
  · rw [hp] at hlo ⊢
    exact prefix_of_replicate_le hlo
  · rw [hs] at hhi
    rw [hp] at hlo ⊢
    obtain ⟨k, rfl⟩ := prefix_of_between hlo hhi
    rw [compare_append] at hlo hhi
    rw [List.prefix_append_right_inj]
    cases k with
    | nil => exact absurd hlo (by simp [compare, List.compareLex_cons_nil])
    | cons c k =>
      rw [compare_cons, Ordering.isLE_then_iff_and] at hlo
      rw [compare_cons, Ordering.then_eq_lt] at hhi
      have hle : b ≤ c := Std.isLE_compare.mp hlo.1
      -- the last byte of the upper end is one above `b`, so nothing lies strictly between
      have hbc : b = c := by
        have hlt : c < b + 1 := by
          rcases hhi with h | ⟨-, h⟩
          · exact Std.compare_eq_lt.mp h
          · exact absurd h (by cases k <;> simp [compare, List.compareLex_nil_nil, List.compareLex_cons_nil])
        have hb' : b.toNat ≠ 255 := fun e => hb (UInt8.toNat_inj.mp (by simpa using e))
        have hb2 := b.toNat_lt
        rw [UInt8.le_iff_toNat_le] at hle
        rw [UInt8.lt_iff_toNat_lt, UInt8.toNat_add] at hlt
        apply UInt8.toNat_inj.mp
        simp only [UInt8.toNat_one] at hlt
        omega
      subst hbc
      have hself : compare b b = .eq := Std.ReflCmp.compare_self
      refine List.cons_prefix_cons.mpr ⟨rfl, prefix_of_replicate_le ?_⟩
      simpa [hself] using hlo.2

/-- A range that starts after the prefix stays under it. -/
theorem prefix_of_inRange_from {p start k : Bytes} (hstart : (compare p start).isLE = true)
    (h : InRange start (prefixSuccessor p) k) : p <+: k :=
  prefix_of_inRange ⟨Std.TransCmp.isLE_trans hstart h.1, h.2⟩

/-- A prefix scan reads every continuation of a prefix that is not all `0xff`, and of any prefix every
continuation with a byte other than `0xff`. -/
theorem inRange_append {p y : Bytes} (h : (∃ b ∈ p, b ≠ 255) ∨ y.head? ≠ some 255) :
    InRange p (prefixSuccessor p) (p ++ y) := by
  constructor
  · have e := compare_append p [] y
    rw [List.append_nil] at e
    rw [e]
    exact List.isLE_compareLex_nil_left
  · rcases prefixSuccessor_cases p with ⟨hp, hs⟩ | ⟨q, b, n, hb, hp, hs⟩
    · have h : y.head? ≠ some 255 := by
        refine h.resolve_left ?_
        rintro ⟨b, hbp, hb⟩
        rw [hp] at hbp
        exact hb (List.eq_of_mem_replicate hbp)
      rw [hs, compare_append]
      cases y with
      | nil => rfl
      | cons c y =>
        have hc : c ≠ 255 := fun e => h (by rw [e]; rfl)
        have hlt : c < 255 := by
          have h1 : c.toNat ≠ 255 := fun e => hc (UInt8.toNat_inj.mp (by simpa using e))
          have h2 := c.toNat_lt
          rw [UInt8.lt_iff_toNat_lt]
          simp only [UInt8.reduceToNat]
          omega
        rw [compare_cons, Std.compare_eq_lt.mpr hlt]
        rfl
    · rw [hs, hp, List.append_assoc, compare_append, List.cons_append, compare_cons]
      have hlt : b < b + 1 := by
        have h1 : b.toNat ≠ 255 := fun e => hb (UInt8.toNat_inj.mp (by simpa using e))
        have h2 := b.toNat_lt
        rw [UInt8.lt_iff_toNat_lt, UInt8.toNat_add]
        simp only [UInt8.toNat_one]
        omega
      rw [Std.compare_eq_lt.mpr hlt]
      rfl

end Ranges

/-! ## Self-delimiting encodings -/

section Delimits

variable {α : Type} {enc : α → Bytes} {R : α → α → Prop}

/-- The encodings of two values show that they agree, and where they end. -/
def Shows (enc : α → Bytes) (R : α → α → Prop) (a a' : α) : Prop := ∀ x y, enc a ++ x = enc a' ++ y → R a a' ∧ x = y

/-- The encodings of two values are told apart, and show where they end. -/
abbrev Tells (enc : α → Bytes) (a a' : α) : Prop := Shows enc Eq a a'

/-- An encoding of fixed width. -/
theorem shows_of_length {w : Nat} (hlen : ∀ a, (enc a).length = w)
    (hsame : ∀ a a', enc a = enc a' → R a a') (a a' : α) : Shows enc R a a' := by
  intro x y h
  obtain ⟨h1, h2⟩ := List.append_inj h ((hlen a).trans (hlen a').symm)
  exact ⟨hsame a a' h1, h2⟩

theorem tells_uint64 (n n' : UInt64) : Tells (fun n : UInt64 => beBytes 8 n.toNat) n n' := by
  refine shows_of_length (fun n => length_beBytes 8 _) (fun n n' h => ?_) n n'
  have hvalue := congrArg beValue h
  rw [beValue_beBytes n.toNat_lt, beValue_beBytes n'.toNat_lt] at hvalue
  exact UInt64.toNat.inj hvalue

/-- A presence tag before an optional value. -/
def tagged (enc : α → Bytes) : Option α → Bytes
  | some a => 1 :: enc a
  | none => [0]

theorem shows_tagged {o o' : Option α} (h : ∀ a ∈ o, ∀ a' ∈ o', Shows enc R a a') :
    Shows (tagged enc) (Option.Rel R) o o' := by
  intro x y he
  cases o with
  | none =>
    cases o' with
    | none => exact ⟨.none, List.append_cancel_left he⟩
    | some a' =>
      have hhead := congrArg List.head? he
      simp [tagged] at hhead
  | some a =>
    cases o' with
    | none =>
      have hhead := congrArg List.head? he
      simp [tagged] at hhead
    | some a' =>
      obtain ⟨hsame, hxy⟩ := h a rfl a' rfl x y (List.cons_inj_right _ |>.mp he)
      exact ⟨.some hsame, hxy⟩

theorem tells_tagged {o o' : Option α} (h : ∀ a ∈ o, ∀ a' ∈ o', Tells enc a a') : Tells (tagged enc) o o' := by
  intro x y he
  obtain ⟨hrel, hxy⟩ := shows_tagged h x y he
  cases hrel with
  | none => exact ⟨rfl, hxy⟩
  | some heq => exact ⟨congrArg some heq, hxy⟩

/-- Lists of one length, item after item. -/
theorem shows_flatMap {l l' : List α} (hlen : l.length = l'.length) (h : ∀ a ∈ l, ∀ a' ∈ l', Shows enc R a a') :
    Shows (List.flatMap enc) (List.Forall₂ R) l l' := by
  intro x y he
  induction l generalizing l' with
  | nil =>
    obtain rfl := List.length_eq_zero_iff.mp hlen.symm
    exact ⟨.nil, he⟩
  | cons a l ih =>
    obtain ⟨a', l', rfl⟩ : ∃ a' l'', l' = a' :: l'' := List.exists_cons_of_length_eq_add_one hlen.symm
    simp only [List.flatMap_cons, List.append_assoc] at he
    obtain ⟨hsame, hrest⟩ := h a List.mem_cons_self a' List.mem_cons_self _ _ he
    obtain ⟨hall, hxy⟩ := ih (Nat.succ.inj hlen) (fun b hb b' hb' => h b (.tail _ hb) b' (.tail _ hb')) hrest
    exact ⟨.cons hsame hall, hxy⟩

end Delimits

/-! ## Codes -/

/-- A way to write values that can be read back from the front of a byte string. -/
structure Code (α : Type) where
  write : α → Bytes
  read : Bytes → Option (α × Bytes)
  read_write : ∀ a rest, read (write a ++ rest) = some (a, rest)

namespace Code

variable {α β : Type}

def byte : Code UInt8 where
  write b := [b]
  read
    | [] => none
    | b :: rest => some (b, rest)
  read_write _ _ := rfl

def pair (c : Code α) (d : Code β) : Code (α × β) where
  write x := c.write x.1 ++ d.write x.2
  read bytes := do
    let (a, bytes) ← c.read bytes
    let (b, bytes) ← d.read bytes
    return ((a, b), bytes)
  read_write x rest := by simp [c.read_write, d.read_write]

/-- Values of another type, by a map with a partial inverse. -/
def via (c : Code β) (f : α → β) (g : β → Option α) (h : ∀ a, g (f a) = some a) : Code α where
  write a := c.write (f a)
  read bytes := do
    let (b, bytes) ← c.read bytes
    return (← g b, bytes)
  read_write a rest := by simp [c.read_write, h]

/-- Every item after a one, and a zero at the end. -/
def writeAll (c : Code α) : List α → Bytes
  | [] => [0]
  | a :: l => 1 :: (c.write a ++ writeAll c l)

def readAll (c : Code α) : Nat → Bytes → Option (List α × Bytes)
  | _, 0 :: bytes => some ([], bytes)
  | fuel + 1, 1 :: bytes => do
    let (a, bytes) ← c.read bytes
    let (l, bytes) ← readAll c fuel bytes
    return (a :: l, bytes)
  | _, _ => none

theorem length_lt_writeAll (c : Code α) (l : List α) : l.length < (writeAll c l).length := by
  induction l with
  | nil => simp [writeAll]
  | cons a l ih =>
    rw [writeAll, List.length_cons, List.length_cons, List.length_append]
    omega

theorem readAll_writeAll (c : Code α) (rest : Bytes) (l : List α) {fuel : Nat} (h : l.length ≤ fuel) :
    readAll c fuel (writeAll c l ++ rest) = some (l, rest) := by
  induction l generalizing fuel with
  | nil => simp [readAll, writeAll]
  | cons a l ih =>
    obtain ⟨fuel, rfl⟩ : ∃ n, fuel = n + 1 := ⟨fuel - 1, by rw [List.length_cons] at h; omega⟩
    simp [writeAll, readAll, c.read_write, ih (Nat.le_of_succ_le_succ h)]

def list (c : Code α) : Code (List α) where
  write := writeAll c
  read bytes := readAll c bytes.length bytes
  read_write l rest := by
    refine readAll_writeAll c rest l ?_
    have := length_lt_writeAll c l
    rw [List.length_append]
    omega

def option (c : Code α) : Code (Option α) := c.list.via Option.toList (fun l => some l.head?) fun o => by
    cases o <;> rfl

end Code

end RecordStore.Lib
