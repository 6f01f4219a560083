import RecordStore.Lib.Bytes
import RecordStore.Lib.Text

/-!
# S3.SigV4 — what a signature covers

A request is signed through its canonical form: method, path, query, signed headers and payload hash, one under the
other.  Path and query are percent-decoded and encoded again, the query is sorted without its signature.  Every part
can be read off the canonical form.
-/

namespace RecordStore.S3

open RecordStore.Lib

/-! ## Percent encoding -/

def isAsciiAlphanumeric (b : UInt8) : Bool := (48 ≤ b && b ≤ 57) || (65 ≤ b && b ≤ 90) || (97 ≤ b && b ≤ 122)

/-- The bytes that stand for themselves: letters, digits and `-`, `_`, `.`, `~`. -/
def unreserved (b : UInt8) : Bool := isAsciiAlphanumeric b || b = 45 || b = 95 || b = 46 || b = 126

/-- An upper-case hexadecimal digit. -/
def hexUpper (n : Nat) : UInt8 := UInt8.ofNat (if n < 10 then 48 + n else 55 + n)

def awsEncodeByte (encodeSlash : Bool) (b : UInt8) : Bytes :=
  if unreserved b || (!encodeSlash && b = 47) then [b] else [37, hexUpper (b.toNat / 16), hexUpper (b.toNat % 16)]

def awsEncode (value : Bytes) (encodeSlash : Bool) : Bytes := value.flatMap (awsEncodeByte encodeSlash)

def hexValue (b : UInt8) : Option Nat :=
  if 48 ≤ b ∧ b ≤ 57 then some (b.toNat - 48)
  else if 65 ≤ b ∧ b ≤ 70 then some (b.toNat - 55)
  else if 97 ≤ b ∧ b ≤ 102 then some (b.toNat - 87)
  else none

/-- `percent_decode_str`: a percent sign that no two digits follow stands for itself. -/
def percentDecode : Bytes → Bytes
  | [] => []
  | [b] => [b]
  | [b, c] => [b, c]
  | b :: h :: l :: rest =>
    if b = 37 then
      match hexValue h, hexValue l with
      | some high, some low => UInt8.ofNat (16 * high + low) :: percentDecode rest
      | _, _ => b :: percentDecode (h :: l :: rest)
    else b :: percentDecode (h :: l :: rest)

/-! ## The canonical query -/

/-- `split_once('=')`, with an empty value where there is no sign. -/
def splitOnce (item : Bytes) : Bytes × Bytes := (item.takeWhile (· ≠ 61), (item.dropWhile (· ≠ 61)).drop 1)

/-- The names and values of a query, decoded. -/
def queryPairs (query : Bytes) : List (Bytes × Bytes) :=
  ((query.splitOn 38).filter (· ≠ [])).map fun item =>
  (percentDecode (splitOnce item).1, percentDecode (splitOnce item).2)

/-- `X-Amz-Signature`. -/
def signatureParameter : Bytes := [88, 45, 65, 109, 122, 45, 83, 105, 103, 110, 97, 116, 117, 114, 101]

def encodePair (p : Bytes × Bytes) : Bytes × Bytes := (awsEncode p.1 true, awsEncode p.2 true)

/-- The order of pairs of strings. -/
def pairOrder (p q : Bytes × Bytes) : Prop := ((compare p.1 q.1).then (compare p.2 q.2)).isLE

instance : DecidableRel pairOrder := fun _ _ => inferInstanceAs (Decidable (_ = true))

def canonicalQuery (query : Bytes) : Bytes :=
  let pairs := (((queryPairs query).map encodePair).filter (·.1 ≠ signatureParameter)).insertionSort pairOrder
  join 38 (pairs.map fun p => p.1 ++ 61 :: p.2)

/-! ## The canonical request -/

/-- A byte of a method or a header name. -/
def isToken (b : UInt8) : Bool :=
  isAsciiAlphanumeric b || b ∈ [33, 35, 36, 37, 38, 39, 42, 43, 45, 46, 94, 95, 96, 124, 126]

structure Method where
  text : Bytes
  token : ∀ b ∈ text, isToken b = true

structure Request where
  method : Method
  path : Bytes
  query : Bytes
  -- names in lower case, each line of a repeated header on its own
  headers : List (Bytes × Bytes)

def lowercase (name : Bytes) : Bytes := name.map fun b => if 65 ≤ b ∧ b ≤ 90 then b + 32 else b

/-- `HeaderName::from_bytes` accepts the name. -/
def isHeaderName (name : Bytes) : Bool := name ≠ [] && name.length ≤ 65535 && name.all isToken

def isAsciiWhitespace (b : UInt8) : Bool := b = 32 || b = 9 || b = 10 || b = 12 || b = 13

def collapseWhitespace (value : Bytes) : Bytes := join 32 ((value.splitOnP isAsciiWhitespace).filter (· ≠ []))

/-- The value of a signed header: its lines, collapsed, with commas between them. -/
def canonicalValue (headers : List (Bytes × Bytes)) (name : Bytes) : Option Bytes :=
  let values := (headers.filter (·.1 = lowercase name)).map Prod.snd
  if isHeaderName name && values ≠ [] && values.all isVisible then
    some (join 44 (values.map collapseWhitespace)) else none

/-- `canonical_request`, or `AuthorizationHeaderMalformed`. -/
def canonicalRequest (r : Request) (signedHeaders : List Bytes) (payloadHash : Bytes) : Option Bytes :=
  (signedHeaders.mapM fun name => (canonicalValue r.headers name).map fun value => (name, value)).map fun headers =>
    r.method.text ++ 10 :: (awsEncode (percentDecode r.path) false ++ 10 :: (canonicalQuery r.query ++ 10 ::
      (headers.flatMap (fun h => h.1 ++ 58 :: h.2 ++ [10]) ++ 10 :: (join 59 signedHeaders ++ 10 :: payloadHash))))

/-! ## Encoded text -/

section Encoded

variable {slash : Bool} {a b c : UInt8} {v w x y : Bytes}

theorem hexUpper_inj {m n : Nat} (hm : m < 16) (hn : n < 16) (h : hexUpper m = hexUpper n) : m = n := by
  have hall : ∀ m n : Fin 16, hexUpper m = hexUpper n → m = n := by decide
  exact congrArg Fin.val (hall ⟨m, hm⟩ ⟨n, hn⟩ h)

theorem unreserved_hexUpper {n : Nat} (h : n < 16) : unreserved (hexUpper n) = true := by
  have hall : ∀ n : Fin 16, unreserved (hexUpper n) = true := by decide
  exact hall ⟨n, h⟩

theorem mem_awsEncode (h : c ∈ awsEncode v slash) : unreserved c = true ∨ c = 47 ∨ c = 37 := by
  obtain ⟨b, -, hb⟩ := List.mem_flatMap.mp h
  unfold awsEncodeByte at hb
  have hlt := b.toNat_lt
  split_ifs at hb with hplain
  · obtain rfl := List.mem_singleton.mp hb
    rw [Bool.or_eq_true, Bool.and_eq_true, decide_eq_true_eq] at hplain
    exact hplain.imp_right fun h => .inl h.2
  · simp only [List.mem_cons, List.not_mem_nil, or_false] at hb
    rcases hb with rfl | rfl | rfl
    · exact .inr (.inr rfl)
    · exact .inl (unreserved_hexUpper (by omega))
    · exact .inl (unreserved_hexUpper (Nat.mod_lt _ (by omega)))

/-- No encoded text contains a line break, an ampersand or an equals sign. -/
theorem not_mem_awsEncode (hc : c = 10 ∨ c = 38 ∨ c = 61) : c ∉ awsEncode v slash := by
  intro h
  have hcases := mem_awsEncode h
  rcases hc with rfl | rfl | rfl <;> revert hcases <;> decide

theorem awsEncodeByte_inj (h : awsEncodeByte slash a ++ x = awsEncodeByte slash b ++ y) : a = b ∧ x = y := by
  have hpercent : ∀ {b : UInt8}, (unreserved b || (!slash && decide (b = 47))) = true → b ≠ 37 := by
    rintro b hb rfl
    revert hb
    cases slash <;> decide
  unfold awsEncodeByte at h
  split_ifs at h with ha hb hb
  · obtain ⟨rfl, hxy⟩ := List.cons.inj h
    exact ⟨rfl, hxy⟩
  · exact absurd (List.cons.inj h).1 (hpercent ha)
  · exact absurd (List.cons.inj h).1.symm (hpercent hb)
  · simp only [List.cons_append, List.nil_append, List.cons.injEq, true_and] at h
    obtain ⟨hhigh, hlow, hxy⟩ := h
    have hlta := a.toNat_lt
    have hltb := b.toNat_lt
    have hhigh' := hexUpper_inj (by omega) (by omega) hhigh
    have hlow' := hexUpper_inj (Nat.mod_lt _ (by omega)) (Nat.mod_lt _ (by omega)) hlow
    exact ⟨UInt8.toNat_inj.mp (by omega), hxy⟩

theorem awsEncode_inj (h : awsEncode v slash = awsEncode w slash) : v = w := by
  have hne : ∀ b : UInt8, awsEncodeByte slash b ≠ [] := by
    intro b
    unfold awsEncodeByte
    split_ifs <;> simp
  induction v generalizing w with
  | nil =>
    cases w with
    | nil => rfl
    | cons b w => exact absurd (List.append_eq_nil_iff.mp h.symm).1 (hne b)
  | cons a v ih =>
    cases w with
    | nil => exact absurd (List.append_eq_nil_iff.mp h).1 (hne a)
    | cons b w =>
      have hfirst : awsEncodeByte slash a ++ awsEncode v slash = awsEncodeByte slash b ++ awsEncode w slash := h
      obtain ⟨rfl, hrest⟩ := awsEncodeByte_inj hfirst
      rw [ih hrest]

theorem encodePair_injective : Function.Injective encodePair := by
  intro p q h
  obtain ⟨hname, hvalue⟩ := Prod.mk.inj h
  exact Prod.ext (awsEncode_inj hname) (awsEncode_inj hvalue)

end Encoded

/-! ## Reading the parts back -/

/-- The pairs a signature covers. -/
def signedPairs (query : Bytes) : List (Bytes × Bytes) := (queryPairs query).filter (·.1 ≠ signatureParameter)

theorem filter_encoded (pairs : List (Bytes × Bytes)) :
    (pairs.map encodePair).filter
    (·.1 ≠ signatureParameter) = (pairs.filter (·.1 ≠ signatureParameter)).map encodePair := by
  have hsignature : awsEncode signatureParameter true = signatureParameter := by decide
  rw [List.filter_map]
  congr 1
  refine List.filter_congr fun p _ => ?_
  have hiff : awsEncode p.1 true ≠ signatureParameter ↔ p.1 ≠ signatureParameter :=
    not_congr ⟨fun h => awsEncode_inj (h.trans hsignature.symm), fun h => by rw [h, hsignature]⟩
  exact decide_eq_decide.mpr hiff

/-- Encoded pairs can be read off the query they are written to. -/
theorem joinPairs_inj {l l' : List (Bytes × Bytes)} (hl : ∀ p ∈ l, ∃ q, encodePair q = p)
    (hl' : ∀ p ∈ l', ∃ q, encodePair q = p)
    (h : join 38 (l.map fun p => p.1 ++ 61 :: p.2) = join 38 (l'.map fun p => p.1 ++ 61 :: p.2)) : l = l' := by
  have hfield : ∀ {l : List (Bytes × Bytes)}, (∀ p ∈ l, ∃ q, encodePair q = p) →
      ∀ a ∈ l.map (fun p => p.1 ++ 61 :: p.2), a ≠ [] ∧ (38 : UInt8) ∉ a := by
    intro l hl a ha
    obtain ⟨p, hp, rfl⟩ := List.mem_map.mp ha
    obtain ⟨q, rfl⟩ := hl p hp
    refine ⟨by simp, fun hm => ?_⟩
    rcases List.mem_append.mp hm with hm | hm
    · exact not_mem_awsEncode (.inr (.inl rfl)) hm
    · rcases List.mem_cons.mp hm with hm | hm
      · exact absurd hm (by decide)
      · exact not_mem_awsEncode (.inr (.inl rfl)) hm
  refine eq_of_map_eq (fun p hp q hq heq => ?_) (join_inj (hfield hl) (hfield hl') h)
  -- within a pair the first equals sign ends the name
  obtain ⟨p, rfl⟩ := hl p hp
  obtain ⟨q, rfl⟩ := hl' q hq
  obtain ⟨hname, hvalue⟩ := field_inj (not_mem_awsEncode (.inr (.inr rfl))) (not_mem_awsEncode (.inr (.inr rfl))) heq
  exact Prod.ext hname hvalue

theorem canonicalQuery_perm {q q' : Bytes} (h : canonicalQuery q = canonicalQuery q') :
    (signedPairs q).Perm (signedPairs q') := by
  unfold canonicalQuery at h
  simp only [filter_encoded] at h
  have hencoded : ∀ q : Bytes, ∀ p ∈ ((signedPairs q).map encodePair).insertionSort pairOrder, ∃ q,
    encodePair q = p := by
    intro q p hp
    obtain ⟨x, -, hx⟩ := List.mem_map.mp ((List.perm_insertionSort pairOrder _).mem_iff.mp hp)
    exact ⟨x, hx⟩
  have hsorted := joinPairs_inj (hencoded q) (hencoded q') h
  have hperm : ((signedPairs q).map encodePair).Perm ((signedPairs q').map encodePair) :=
    ((List.perm_insertionSort pairOrder _).symm.trans (hsorted ▸ .refl _)).trans (List.perm_insertionSort pairOrder _)
  exact (List.map_perm_map_iff encodePair_injective).mp hperm

/-- The canonical query is one line. -/
theorem not_mem_canonicalQuery (q : Bytes) : (10 : UInt8) ∉ canonicalQuery q := by
  intro h
  rcases mem_join h with h | ⟨a, ha, hm⟩
  · exact absurd h (by decide)
  · obtain ⟨p, hp, rfl⟩ := List.mem_map.mp ha
    have hp := List.mem_of_mem_filter ((List.perm_insertionSort pairOrder _).mem_iff.mp hp)
    obtain ⟨x, -, rfl⟩ := List.mem_map.mp hp
    rcases List.mem_append.mp hm with hm | hm
    · exact not_mem_awsEncode (.inl rfl) hm
    · rcases List.mem_cons.mp hm with hm | hm
      · exact absurd hm (by decide)
      · exact not_mem_awsEncode (.inl rfl) hm

/-! ## Header lines -/

theorem mem_of_mem_splitOnP {p : UInt8 → Bool} {c : UInt8} {value a : Bytes} (ha : a ∈ value.splitOnP p) (hc : c ∈ a) :
    c ∈ value := by
  induction value generalizing a with
  | nil =>
    rw [List.splitOnP_nil, List.mem_singleton] at ha
    exact absurd (ha ▸ hc) List.not_mem_nil
  | cons x value ih =>
    rw [List.splitOnP_cons_eq_if_modifyHead] at ha
    split_ifs at ha
    · rcases List.mem_cons.mp ha with rfl | ha
      · exact absurd hc List.not_mem_nil
      · exact List.mem_cons_of_mem x (ih ha hc)
    · cases hs : value.splitOnP p with
      | nil => exact absurd hs (List.splitOnP_ne_nil p value)
      | cons b bs =>
        rw [hs] at ih
        rw [hs, List.modifyHead_cons] at ha
        rcases List.mem_cons.mp ha with rfl | ha
        · rcases List.mem_cons.mp hc with rfl | hc
          · exact List.mem_cons_self
          · exact List.mem_cons_of_mem x (ih List.mem_cons_self hc)
        · exact List.mem_cons_of_mem x (ih (List.mem_cons_of_mem b ha) hc)

/-- A name and a value that can be signed: neither ends its field early. -/
structure Signable (h : Bytes × Bytes) : Prop where
  name : h.1 ≠ [] ∧ ∀ c : UInt8, c = 10 ∨ c = 58 → c ∉ h.1
  value : (10 : UInt8) ∉ h.2

theorem signable {headers : List (Bytes × Bytes)} {name value : Bytes} (h : canonicalValue headers name = some value) :
    Signable (name, value) := by
  unfold canonicalValue at h
  simp only [Option.ite_none_right_eq_some, Bool.and_eq_true, Option.some.injEq, isHeaderName, decide_eq_true_eq,
    List.all_eq_true] at h
  obtain ⟨⟨⟨⟨⟨hne, -⟩, htoken⟩, -⟩, hvisible⟩, rfl⟩ := h
  refine ⟨⟨hne, fun c hc hm => ?_⟩, fun hm => ?_⟩
  · have := htoken c hm
    rcases hc with rfl | rfl <;> revert this <;> decide
  · rcases mem_join hm with hm | ⟨a, ha, hm⟩
    · exact absurd hm (by decide)
    · obtain ⟨v, hv, rfl⟩ := List.mem_map.mp ha
      rcases mem_join hm with hm | ⟨word, hword, hm⟩
      · exact absurd hm (by decide)
      · have hten := mem_of_mem_splitOnP (List.mem_of_mem_filter hword) hm
        exact absurd (List.all_eq_true.mp (hvisible v hv) 10 hten) (by decide)

theorem headerLines_inj {l l' : List (Bytes × Bytes)} {x y : Bytes} (hl : ∀ h ∈ l, Signable h)
    (hl' : ∀ h ∈ l', Signable h)
    (h : l.flatMap (fun h => h.1 ++ 58 :: h.2 ++ [10]) ++ 10 :: x = l'.flatMap (fun h => h.1 ++ 58 :: h.2 ++ [10]) ++
      10 :: y) :
    l = l' ∧ x = y := by
  have hline : ∀ l : List (Bytes × Bytes), l.flatMap (fun h => h.1 ++ 58 :: h.2 ++ [10]) =
      (l.map fun h => h.1 ++ 58 :: h.2).flatMap (· ++ [10]) := fun l => by rw [List.flatMap_map]
  have hfield : ∀ {l : List (Bytes × Bytes)}, (∀ h ∈ l, Signable h) →
      ∀ a ∈ l.map (fun h => h.1 ++ 58 :: h.2), a ≠ [] ∧ (10 : UInt8) ∉ a := by
    intro l hl a ha
    obtain ⟨h, hh, rfl⟩ := List.mem_map.mp ha
    refine ⟨by simp, fun hm => ?_⟩
    rcases List.mem_append.mp hm with hm | hm
    · exact (hl h hh).name.2 10 (.inl rfl) hm
    · rcases List.mem_cons.mp hm with hm | hm
      · exact absurd hm (by decide)
      · exact (hl h hh).value hm
  rw [hline l, hline l'] at h
  obtain ⟨hmap, hxy⟩ := lines_inj (hfield hl) (hfield hl') h
  refine ⟨eq_of_map_eq (fun p hp q hq heq => ?_) hmap, hxy⟩
  obtain ⟨hname, hvalue⟩ := field_inj ((hl p hp).name.2 58 (.inr rfl)) ((hl' q hq).name.2 58 (.inr rfl)) heq
  exact Prod.ext hname hvalue

/-! ## What the canonical request determines -/

/-- A canonical request that was built names the signed headers in order, each with its value. -/
theorem headers_of_mapM {headers l : List (Bytes × Bytes)} {signed : List Bytes}
    (h : (signed.mapM fun name => (canonicalValue headers name).map fun value => (name, value)) = some l) :
    l.map Prod.fst = signed ∧ ∀ x ∈ l, canonicalValue headers x.1 = some x.2 := by
  induction signed generalizing l with
  | nil =>
    obtain rfl := Option.some.inj h
    exact ⟨rfl, fun x hx => absurd hx List.not_mem_nil⟩
  | cons name signed ih =>
    rw [List.mapM_cons] at h
    obtain ⟨x, hx, h⟩ := Option.bind_eq_some_iff.mp h
    obtain ⟨l', hl', h⟩ := Option.bind_eq_some_iff.mp h
    obtain ⟨value, hvalue, rfl⟩ := Option.map_eq_some_iff.mp hx
    obtain rfl := Option.some.inj h
    obtain ⟨hnames, hvalues⟩ := ih hl'
    refine ⟨by rw [List.map_cons, hnames], fun x hx => ?_⟩
    rcases List.mem_cons.mp hx with rfl | hx
    · exact hvalue
    · exact hvalues x hx

/-- Requests with one canonical form agree in method, decoded path, decoded query without the signature, list of
signed headers, value of each of them as it is signed, and payload hash. -/
theorem canonicalRequest_pins (r r' : Request) (signed signed' : List Bytes) (hash hash' text : Bytes)
    (h : canonicalRequest r signed hash = some text) (h' : canonicalRequest r' signed' hash' = some text) :
    r.method = r'.method ∧ percentDecode r.path = percentDecode r'.path ∧
      (signedPairs r.query).Perm (signedPairs r'.query) ∧
      signed = signed' ∧ (∀ name ∈ signed, ∃ value, canonicalValue r.headers name = some value ∧
        canonicalValue r'.headers name = some value) ∧ hash = hash' := by
  have hmethod : ∀ m : Method, (10 : UInt8) ∉ m.text := fun m hm => absurd (m.token 10 hm) (by decide)
  obtain ⟨l, hl, rfl⟩ := Option.map_eq_some_iff.mp h
  obtain ⟨l', hl', htext⟩ := Option.map_eq_some_iff.mp h'
  obtain ⟨hnames, hvalues⟩ := headers_of_mapM hl
  obtain ⟨hnames', hvalues'⟩ := headers_of_mapM hl'
  -- one line after the other, from the top
  obtain ⟨hm, htext⟩ := field_inj (hmethod _) (hmethod _) htext.symm
  obtain ⟨hpath, htext⟩ := field_inj (not_mem_awsEncode (.inl rfl)) (not_mem_awsEncode (.inl rfl)) htext
  obtain ⟨hquery, htext⟩ := field_inj (not_mem_canonicalQuery _) (not_mem_canonicalQuery _) htext
  obtain ⟨rfl, hrest⟩ :=
    headerLines_inj (fun x hx => signable (hvalues x hx)) (fun x hx => signable (hvalues' x hx)) htext
  obtain rfl : signed = signed' := hnames.symm.trans hnames'
  refine ⟨?_, awsEncode_inj hpath, canonicalQuery_perm hquery, rfl, fun name hname => ?_,
    (List.cons.inj (List.append_cancel_left hrest)).2⟩
  · cases hr : r.method
    cases hr' : r'.method
    rw [hr, hr'] at hm
    congr 1
  · rw [← hnames] at hname
    obtain ⟨x, hx, rfl⟩ := List.mem_map.mp hname
    exact ⟨x.2, hvalues x hx, hvalues' x hx⟩

namespace Sample

/-- `GET /a%2Fb?y=1&x=%20` with a `host` header. -/
def get : Request :=
  ⟨⟨[71, 69, 84], by decide +kernel⟩, [47, 97, 37, 50, 70, 98], [121, 61, 49, 38, 120, 61, 37, 50, 48],
    [([104, 111, 115, 116], [104])]⟩

/-- The same request, spelled otherwise: the query in another order and with its signature. -/
def respelled : Request :=
  { get with
    query := [120, 61, 37, 50, 48, 38, 38] ++ signatureParameter ++ [61, 48, 38, 37, 55, 57, 61, 49]
    headers := [([104, 111, 115, 116], [32, 104, 9])] }

end Sample

theorem canonicalRequest_pins_respelled :
    Sample.get.query ≠ Sample.respelled.query ∧
      (signedPairs Sample.get.query).Perm (signedPairs Sample.respelled.query) := by
  have hsome : (canonicalRequest Sample.get [[104, 111, 115, 116]] [48]).isSome = true := by decide +kernel
  obtain ⟨text, htext⟩ := Option.isSome_iff_exists.mp hsome
  have hsame : canonicalRequest Sample.respelled [[104, 111, 115, 116]]
    [48] = canonicalRequest Sample.get [[104, 111, 115, 116]] [48] := by
    decide +kernel
  obtain ⟨-, -, hquery, -⟩ := canonicalRequest_pins Sample.get Sample.respelled _ _ _ _ text htext (hsame.trans htext)
  exact ⟨by decide, hquery⟩

/-! ## Orders of a query -/

def comparePairs : Bytes × Bytes → Bytes × Bytes → Ordering := compareLex (compareOn Prod.fst) (compareOn Prod.snd)

instance transCmp_comparePairs : Std.TransCmp comparePairs := inferInstanceAs (Std.TransCmp (compareLex _ _))

instance isTrans_pairOrder : IsTrans (Bytes × Bytes) pairOrder :=
  ⟨fun _ _ _ => @Std.TransCmp.isLE_trans _ comparePairs _ _ _ _⟩

instance total_pairOrder : Std.Total pairOrder where
  total p q := by
    show (comparePairs p q).isLE = true ∨ (comparePairs q p).isLE = true
    rw [@Std.OrientedCmp.eq_swap _ comparePairs _ q p]
    cases comparePairs p q <;> simp

/-- Two queries have one canonical form exactly if they have the same pairs besides the signature. -/
theorem canonicalQuery_eq_iff (q q' : Bytes) :
    canonicalQuery q = canonicalQuery q' ↔ (signedPairs q).Perm (signedPairs q') := by
  refine ⟨canonicalQuery_perm, fun h => ?_⟩
  unfold canonicalQuery
  simp only [filter_encoded]
  have hperm := (List.perm_insertionSort pairOrder _).trans
    ((h.map encodePair).trans (List.perm_insertionSort pairOrder _).symm)
  have hsorted := hperm.eq_of_pairwise (fun p p' _ _ hle hge => ?_) (List.pairwise_insertionSort ..)
    (List.pairwise_insertionSort ..)
  · exact congrArg (fun l => join 38 (l.map fun p => p.1 ++ 61 :: p.2)) hsorted
  · have heq := @Std.OrientedCmp.isLE_antisymm _ comparePairs _ _ _ hle hge
    simp only [comparePairs, compareLex, compareOn, Ordering.then_eq_eq] at heq
    exact Prod.ext (Std.LawfulEqCmp.eq_of_compare heq.1) (Std.LawfulEqCmp.eq_of_compare heq.2)

end RecordStore.S3
