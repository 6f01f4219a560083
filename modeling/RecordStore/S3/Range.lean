import RecordStore.Service.Current

/-!
# S3.Range — ranged reads beside overwrites

A ranged `GET` reads the object's size, resolves the `Range` header against it, and reads the object again with the
resolved range.  An overwrite between the two reads is served with the range of the version before it.
-/

namespace RecordStore.S3

open RecordStore.Lib RecordStore.Core RecordStore.Service

/-! ## Range headers -/

inductive S3ErrorKind where
  | invalidRange
  | noSuchKey
  | internalError
  deriving DecidableEq

/-- `parse::<u64>` of a decimal number. -/
def parseU64 (n : Nat) : Except S3ErrorKind UInt64 := if n < 2 ^ 64 then .ok (.ofNat n) else .error .invalidRange

def rangeOrInvalid (offset length : UInt64) : Except S3ErrorKind ByteRange :=
  (byteRange offset length).elim (.error .invalidRange) .ok

def parseRange (header : RangeHeader) (size : UInt64) : Except S3ErrorKind ByteRange :=
  match header with
  | .suffix length => (parseU64 length).bind fun suffix =>
    if suffix = 0 ∨ size = 0 then .error .invalidRange else rangeOrInvalid (size - min suffix size) (min suffix size)
  | .onward first => (parseU64 first).bind fun start =>
    if size ≤ start then .error .invalidRange else rangeOrInvalid start (size - start)
  | .span first last => (parseU64 first).bind fun start =>
    if size ≤ start then .error .invalidRange
    else (parseU64 last).bind fun end_ =>
      if end_ < start ∨ 2 ^ 64 ≤ (end_ - start).toNat + 1 then .error .invalidRange
      else rangeOrInvalid start (min (end_ - start + 1) (size - start))

/-- The offset and length of the slice that a header denotes of an object of the size, after clamping. -/
def denote (header : RangeHeader) (size : Nat) : Option (Nat × Nat) :=
  match header with
  | .suffix length => if 0 < length ∧ 0 < size then some (size - length, min length size) else none
  | .onward first => if first < size then some (first, size - first) else none
  | .span first last => if first < size ∧ first ≤ last then some (first, min (last + 1) size - first) else none

/-! ## The response -/

inductive Answer where
  | partialContent (etag : ETag) (versionId : VersionId) (contentLength : Nat) (contentRange : ContentRange)
      (body : Bytes)
  | error (kind : S3ErrorKind)
  deriving DecidableEq

/-- `streaming_response` for a resolved range. -/
def streamingResponse (metadata : StoredVersion) (range : ResolvedByteRange) (body : Bytes) : Answer :=
  .partialContent metadata.etag metadata.versionId range.length.toNat
    ⟨range.offset.toNat, range.offset.toNat + range.length.toNat - 1, metadata.size.toNat⟩ body

/-- `get_object` with a `Range` header and no version: the size is read at one moment, the object at another. -/
def getObject (h : History) (headAt getAt : Nat) (header : RangeHeader) : Answer :=
  match h.current headAt with
  | none => .error .noSuchKey
  | some metadata =>
    match parseRange header metadata.size with
    | .error kind => .error kind
    | .ok range =>
      match h.get getAt (some range) with
      | .error .objectNotFound => .error .noSuchKey
      | .error (.storage _) => .error .internalError
      | .ok result => (result.range).elim (.error .internalError) fun resolved =>
        streamingResponse result.metadata resolved result.body

/-- The answer is the slice that the header denotes of the version it names, and no internal error. -/
def Right (h : History) (header : RangeHeader) : Answer → Prop
  | .partialContent etag versionId contentLength contentRange body => ∃ v moment offset,
    h.current moment = some v ∧ etag = v.etag ∧ versionId = v.versionId ∧
      denote header v.content.length = some (offset, contentLength) ∧
      contentRange = ⟨offset, offset + contentLength - 1, v.content.length⟩ ∧
        body = (v.content.drop offset).take contentLength
  | .error kind => kind ≠ .internalError

/-- The header denotes the same slice of objects of both sizes, as far as the second reaches. -/
def Agrees (header : RangeHeader) (size size' : Nat) : Prop :=
  match header with
  | .suffix length => size' = size ∨ 0 < size' ∧ size' ≤ size ∧ size ≤ length
  | .onward first => first < size' ∧ size' ≤ size
  | .span first last => first < size' ∧ min (last + 1) size' ≤ size

/-! ## Parsing against a size -/

section Parsing

variable {header : RangeHeader} {size : UInt64} {r : ByteRange}

theorem parseU64_ok {n : Nat} {x : UInt64} (h : parseU64 n = .ok x) : x.toNat = n := by
  unfold parseU64 at h
  split_ifs at h with hlt
  obtain rfl := Except.ok.inj h
  rw [UInt64.toNat_ofNat']
  exact Nat.mod_eq_of_lt hlt

theorem rangeOrInvalid_ok {offset length : UInt64} (h : rangeOrInvalid offset length = .ok r) :
    r.offset = offset ∧ r.length = length := by
  unfold rangeOrInvalid at h
  cases hr : byteRange offset length with
  | none =>
    rw [hr] at h
    cases h
  | some r' =>
    rw [hr] at h
    obtain rfl := Except.ok.inj h
    exact byteRange_eq_some hr

/-- A header that is accepted for a size denotes the range it is parsed to. -/
theorem denote_of_parseRange (h : parseRange header size = .ok r) :
    denote header size.toNat = some (r.offset.toNat, r.length.toNat) := by
  cases header with
  | suffix length =>
    obtain ⟨suffix, hsuffix, h⟩ := bind_eq_ok h
    split_ifs at h with hzero
    obtain ⟨ho, hl⟩ := rangeOrInvalid_ok h
    have hn := parseU64_ok hsuffix
    rw [not_or, ← UInt64.toNat_inj, ← UInt64.toNat_inj] at hzero
    rw [ho, hl, UInt64.toNat_sub_of_le _ _ (by rw [UInt64.le_iff_toNat_le, toNat_min]; omega), toNat_min, hn]
    simp only [denote, UInt64.toNat_zero] at hzero ⊢
    rw [if_pos (by omega), Option.some.injEq, Prod.mk.injEq]
    omega
  | onward first =>
    obtain ⟨start, hstart, h⟩ := bind_eq_ok h
    split_ifs at h with hpast
    obtain ⟨ho, hl⟩ := rangeOrInvalid_ok h
    have hn := parseU64_ok hstart
    rw [UInt64.not_le, UInt64.lt_iff_toNat_lt] at hpast
    rw [ho, hl, UInt64.toNat_sub_of_le _ _ (UInt64.le_iff_toNat_le.mpr hpast.le), hn]
    simp only [denote]
    rw [if_pos (by omega)]
  | span first last =>
    obtain ⟨start, hstart, h⟩ := bind_eq_ok h
    split_ifs at h with hpast
    obtain ⟨stop, hstop, h⟩ := bind_eq_ok h
    split_ifs at h with hbad
    obtain ⟨ho, hl⟩ := rangeOrInvalid_ok h
    have hn := parseU64_ok hstart
    have hm := parseU64_ok hstop
    rw [UInt64.not_le, UInt64.lt_iff_toNat_lt] at hpast
    rw [not_or, UInt64.not_lt, UInt64.le_iff_toNat_le] at hbad
    have hsub := UInt64.toNat_sub_of_le _ _ (UInt64.le_iff_toNat_le.mpr hbad.1)
    rw [ho, hl, toNat_min, UInt64.toNat_sub_of_le _ _ (UInt64.le_iff_toNat_le.mpr hpast.le), UInt64.toNat_add,
      UInt64.toNat_one,
      Nat.mod_eq_of_lt (by omega), hsub, hn, hm]
    simp only [denote]
    rw [if_pos (by omega), Option.some.injEq, Prod.mk.injEq]
    omega

/-- When a range of one size, clipped to another, is what the header denotes of the other. -/
theorem denote_clipped_iff {size size' offset length : Nat} (h : denote header size = some (offset, length)) :
    offset < size' ∧ denote header size' = some (offset, min length (size' - offset)) ↔ Agrees header size size' := by
  cases header <;> simp only [denote, Agrees] at h ⊢ <;> split_ifs at h ⊢ <;>
    simp only [Option.some.injEq, Prod.mk.injEq] at h ⊢ <;> omega

theorem agrees_self {size offset length : Nat} (h : denote header size = some (offset, length)) :
    Agrees header size size := by
  cases header with
  | suffix n => exact .inl rfl
  | onward first =>
    simp only [denote] at h
    split_ifs at h with hfirst
    exact ⟨hfirst, Nat.le_refl _⟩
  | span first last =>
    simp only [denote] at h
    split_ifs at h with hfirst
    exact ⟨hfirst.1, Nat.min_le_right _ _⟩

/-- A header is refused with one error only. -/
theorem parseRange_error {kind : S3ErrorKind} (h : parseRange header size = .error kind) : kind = .invalidRange := by
  have hnumber : ∀ {n : Nat} {f : UInt64 → Except S3ErrorKind ByteRange},
    (∀ x, f x = .error kind → kind = .invalidRange) → (parseU64 n).bind f = .error kind → kind = .invalidRange := by
    intro n f hf hbind
    unfold parseU64 at hbind
    split_ifs at hbind
    · exact hf _ hbind
    · exact (Except.error.inj hbind).symm
  have hrange : ∀ {offset length : UInt64}, rangeOrInvalid offset length = .error kind → kind = .invalidRange := by
    intro offset length hr
    unfold rangeOrInvalid at hr
    cases hb : byteRange offset length with
    | none =>
      rw [hb] at hr
      exact (Except.error.inj hr).symm
    | some r =>
      rw [hb] at hr
      cases hr
  cases header with
  | suffix length | onward first =>
    refine hnumber (fun x hx => ?_) h
    split_ifs at hx
    · exact (Except.error.inj hx).symm
    · exact hrange hx
  | span first last =>
    refine hnumber (fun x hx => ?_) h
    split_ifs at hx
    · exact (Except.error.inj hx).symm
    · refine hnumber (fun y hy => ?_) hx
      split_ifs at hy
      · exact (Except.error.inj hy).symm
      · exact hrange hy

end Parsing

/-! ## The two reads -/

section Reads

variable {h : History} {headAt getAt : Nat} {header : RangeHeader} {v w : StoredVersion} {r : ByteRange}

/-- Both reads find a version and the header is accepted for the first. -/
theorem right_of_reads (hv : h.current headAt = some v) (hr : parseRange header v.size = .ok r)
    (hw : h.current getAt = some w) :
    Right h header (getObject h headAt getAt header) ↔ Agrees header v.size.toNat w.size.toNat := by
  have hdenote := denote_of_parseRange hr
  rw [← denote_clipped_iff hdenote]
  rcases resolve_cases r w.size with ⟨hpast, e, he⟩ | ⟨resolved, hwithin, hok, hoffset, hlength⟩
  · have hanswer : getObject h headAt getAt header = .error .internalError := by
      simp only [getObject, hv, hr, History.get, hw, he]
    rw [hanswer]
    exact iff_of_false (fun hne => hne rfl) fun hlt => absurd hlt.1 (Nat.not_lt.mpr hpast)
  · have hanswer : getObject h headAt getAt header = streamingResponse w resolved
        ((w.content.drop resolved.offset.toNat).take resolved.length.toNat) := by
      simp only [getObject, hv, hr, History.get, hw, hok, Option.elim_some]
    rw [hanswer]
    constructor
    · rintro ⟨x, moment, offset, hx, -, hid, hx', hrange, -⟩
      obtain rfl := h.unique hx hw hid.symm
      obtain ⟨hfirst, -, -⟩ := ContentRange.mk.inj hrange
      rw [← hfirst, hoffset, hlength, ← x.size_toNat] at hx'
      exact ⟨hwithin, hx'⟩
    · rintro ⟨-, hsame⟩
      rw [← hoffset, hoffset, ← hlength, ← hoffset, w.size_toNat] at hsame
      exact ⟨w, getAt, resolved.offset.toNat, hw, rfl, rfl, hsame, by rw [w.size_toNat], rfl⟩

/-- A ranged read is right exactly if the header, when the size it was resolved against accepts it, denotes the same
slice of the version that is served; and it is right whenever both reads find the same version. -/
theorem getObject_right_iff (h : History) (headAt getAt : Nat) (header : RangeHeader) :
    (Right h header (getObject h headAt getAt header) ↔ ∀ v r w, h.current headAt = some v →
      parseRange header v.size = .ok r →
      h.current getAt = some w → Agrees header v.size.toNat w.size.toNat) ∧
    (h.current headAt = h.current getAt → Right h header (getObject h headAt getAt header)) := by
  have hiff : Right h header (getObject h headAt getAt header) ↔ ∀ v r w, h.current headAt = some v →
    parseRange header v.size = .ok r →
      h.current getAt = some w → Agrees header v.size.toNat w.size.toNat := by
    cases hv : h.current headAt with
    | none =>
      have hanswer : getObject h headAt getAt header = .error .noSuchKey := by simp only [getObject, hv]
      rw [hanswer]
      exact iff_of_true nofun fun v r w hv' => absurd hv' nofun
    | some v =>
      cases hr : parseRange header v.size with
      | error kind =>
        have hanswer : getObject h headAt getAt header = .error kind := by simp only [getObject, hv, hr]
        rw [hanswer]
        refine iff_of_true ?_ fun v' r w hv' hr' => ?_
        · rw [parseRange_error hr]
          exact nofun
        · rw [← Option.some.inj hv', hr] at hr'
          cases hr'
      | ok r =>
        cases hw : h.current getAt with
        | none =>
          have hanswer : getObject h headAt getAt header = .error .noSuchKey :=
            by simp only [getObject, hv, hr, History.get, hw]
          rw [hanswer]
          exact iff_of_true nofun fun v r w _ _ hw' => absurd hw' nofun
        | some w =>
          rw [right_of_reads hv hr hw]
          constructor
          · intro hagrees v' r' w' hv' _ hw'
            rwa [← Option.some.inj hv', ← Option.some.inj hw']
          · exact fun hall => hall v r w rfl hr rfl
  refine ⟨hiff, fun hsame => hiff.mpr fun v r w hv hr hw => ?_⟩
  obtain rfl : v = w := Option.some.inj (hv.symm.trans (hsame.trans hw))
  exact agrees_self (denote_of_parseRange hr)

end Reads

namespace Sample

def tenBytes : StoredVersion := ⟨.ofNat 1, Service.Sample.tag, none, (List.range 10).map UInt8.ofNat, by decide⟩

/-- Ten bytes that are overwritten with three. -/
def shorter : History :=
  Service.Sample.overwritten tenBytes ⟨.ofNat 2, Service.Sample.tag, none, [5, 6, 7], by decide⟩ (by decide)

/-- Ten bytes that are overwritten with twelve. -/
def longer : History :=
  Service.Sample.overwritten tenBytes ⟨.ofNat 2, Service.Sample.tag, none, List.replicate 12 1, by decide⟩ (by decide)

end Sample

theorem getObject_right_shorter :
    Right Sample.shorter (.span 1 1) (getObject Sample.shorter 0 1 (.span 1 1)) := by
  refine (getObject_right_iff _ 0 1 (.span 1 1)).1.mpr fun v r w hv _ hw => ?_
  obtain rfl := Option.some.inj hv
  obtain rfl := Option.some.inj hw
  exact ⟨by decide, by decide⟩

/-- The last four bytes of ten, served of an object of twelve, and asked of one of three. -/
theorem getObject_wrong :
    getObject Sample.longer 0 1 (.suffix 4) =
      .partialContent Service.Sample.tag (.ofNat 2) 4 ⟨6, 9, 12⟩ [1, 1, 1, 1] ∧ denote (.suffix 4) 12 = some (8, 4) ∧
    getObject Sample.shorter 0 1 (.suffix 4) = .error .internalError := by
  refine ⟨by decide +kernel, by decide, by decide +kernel⟩

end RecordStore.S3
