import RecordStore.Lib.Text
import RecordStore.Service.Current

/-!
# Sharing.Content — what a public response says of the bytes it carries

A share or embed link that follows the current version is answered from three reads: the metadata, a probe of the
leading bytes, and the stream.  Type, length, total size and tag of the response come from the first, the bytes from
the third.
-/

namespace RecordStore.Sharing

open RecordStore.Lib RecordStore.Core RecordStore.Service

/-! ## Media types -/

inductive PreviewKind where
  | image
  | video
  | audio
  | pdf
  | text
  | json
  | unsafeInline
  | unsupported
  deriving DecidableEq

/-- `char::is_whitespace`. -/
def isWhiteSpace (c : Char) : Bool :=
  9 ≤ c.toNat && c.toNat ≤ 13 || 0x2000 ≤ c.toNat && c.toNat ≤ 0x200A ||
    [0x20, 0x85, 0xA0, 0x1680, 0x2028, 0x2029, 0x202F, 0x205F, 0x3000].contains c.toNat

/-- The media type before its parameters, trimmed and in lower case. -/
def essence (contentType : String) : String :=
  .ofList ((trimWhile isWhiteSpace (contentType.toList.takeWhile (· ≠ ';'))).map Char.toLower)

def PreviewKind.ofEssence (essence : String) : PreviewKind :=
  if essence ∈ ["image/jpeg", "image/png", "image/webp", "image/gif"] then .image
  else if essence ∈ ["video/mp4", "video/webm"] then .video
  else if essence ∈ ["audio/mpeg", "audio/ogg", "audio/wav", "audio/x-wav", "audio/webm"] then .audio
  else if essence = "application/pdf" then .pdf
  else if essence ∈ ["text/plain", "text/markdown", "text/csv"] then .text
  else if essence = "application/json" then .json
  else if essence ∈ ["text/html", "application/xhtml+xml", "image/svg+xml", "application/xml", "text/xml",
    "text/javascript", "application/javascript", "application/ecmascript", "application/x-shockwave-flash",
      "application/xslt+xml"] then .unsafeInline
  else .unsupported

def PreviewKind.classify (contentType : Option String) : PreviewKind :=
  contentType.elim .unsupported fun contentType => ofEssence (essence contentType)

def PreviewKind.canonicalOfEssence (essence : String) : Option String :=
  if essence ∈ ["image/jpeg", "image/png", "image/webp", "image/gif", "video/mp4", "video/webm",
    "audio/mpeg", "audio/ogg", "audio/wav", "audio/webm", "application/pdf"] then some essence
  else if essence = "audio/x-wav" then some "audio/wav"
  else if essence ∈ ["text/plain", "text/markdown", "text/csv"] then some "text/plain; charset=utf-8"
  else if essence = "application/json" then some "application/json; charset=utf-8"
  else none

def PreviewKind.canonicalContentType (contentType : String) : Option String := canonicalOfEssence (essence contentType)

def PreviewKind.allowsInline (kind : PreviewKind) : Bool :=
  kind ∈ [PreviewKind.image, .video, .audio, .pdf, .text, .json]

def startsWith (prefix_ : Bytes) (marker : Bytes) : Bool := marker.isPrefixOf prefix_

/-- `looks_like_markup`. -/
def looksLikeMarkup (prefix_ : Bytes) : Bool :=
  let start := if startsWith prefix_ [0xEF, 0xBB, 0xBF] then prefix_.drop 3 else prefix_
  let trimmed := ((start.dropWhile fun b => b ∈ [0x09, 0x0A, 0x0C, 0x0D, 0x20]).take 16).map fun b =>
    if 0x41 ≤ b ∧ b ≤ 0x5A then b + 0x20 else b
  ["<!doctype", "<html", "<head", "<body", "<script", "<svg", "<?xml"].any fun marker => startsWith trimmed
  (asBytes marker)

def riffForm (prefix_ form : Bytes) : Bool :=
  12 ≤ prefix_.length && startsWith prefix_ (asBytes "RIFF") && (prefix_.drop 8).take 4 = form

def mp4Brand (prefix_ : Bytes) : Bool := 12 ≤ prefix_.length && (prefix_.drop 4).take 4 = asBytes "ftyp"

/-- `content_signature_matches`. -/
def contentSignatureMatches (contentType : String) (prefix_ : Bytes) : Bool :=
  if essence contentType = "image/jpeg" then startsWith prefix_ [0xFF, 0xD8, 0xFF]
  else if essence contentType = "image/png" then startsWith prefix_ [0x89, 0x50, 0x4E, 0x47, 0x0D, 0x0A, 0x1A, 0x0A]
  else if essence contentType = "image/gif" then startsWith prefix_ (asBytes "GIF87a") ||
    startsWith prefix_ (asBytes "GIF89a")
  else if essence contentType = "image/webp" then riffForm prefix_ (asBytes "WEBP")
  else if essence contentType = "application/pdf" then startsWith prefix_ (asBytes "%PDF-")
  else if essence contentType = "video/mp4" then mp4Brand prefix_
  else if essence contentType ∈ ["video/webm", "audio/webm"] then startsWith prefix_ [0x1A, 0x45, 0xDF, 0xA3]
  else if essence contentType = "audio/ogg" then startsWith prefix_ (asBytes "OggS")
  else if essence contentType ∈ ["audio/wav", "audio/x-wav"] then riffForm prefix_ (asBytes "WAVE")
  else if essence contentType = "audio/mpeg" then
    startsWith prefix_ (asBytes "ID3") ||
      (2 ≤ prefix_.length && prefix_.getD 0 0 = 0xFF && (prefix_.getD 1 0 &&& 0xE0) = 0xE0)
  else if essence contentType ∈ ["text/plain", "text/markdown", "text/csv", "application/json"] then
    !looksLikeMarkup prefix_
  else true

/-! ## The three reads -/

inductive ContentError where
  | objectNotFound
  | invalidRange
  | sharePreviewUnsupported
  | embedContentChanged
  | contentTypeMismatch
  | internal
  deriving DecidableEq

/-- The moments of a request's reads: the metadata, the probe and the stream. -/
structure Moments where
  head : Nat
  probe : Nat
  stream : Nat

/-- `target_error`. -/
def targetError : GetError → ContentError
  | .objectNotFound => .objectNotFound
  | .storage _ => .internal

def readMetadata (h : History) (moment : Nat) : Except ContentError StoredVersion :=
  (h.current moment).elim (.error .objectNotFound) .ok

def openStream (h : History) (moment : Nat) (range : Option ByteRange) : Except ContentError GetResult :=
  (h.get moment range).mapError targetError

/-- `CONTENT_SIGNATURE_PROBE_BYTES`. -/
def contentSignatureProbeBytes : UInt64 := 64

def readProbe (result : GetResult) : Bytes := result.body.take contentSignatureProbeBytes.toNat

def verifySignature (h : History) (moment : Nat) (metadata : StoredVersion) : Except ContentError Unit :=
  metadata.contentType.elim (.ok ()) fun contentType =>
    if metadata.size = 0 then .ok ()
    else (byteRange 0 (min metadata.size contentSignatureProbeBytes)).elim (.ok ()) fun range =>
      (openStream h moment (some range)).bind fun result =>
        if contentSignatureMatches contentType (readProbe result) then .ok () else .error .contentTypeMismatch

/-- The `Range` header of a request. -/
inductive RangeField where
  | absent
  | unreadable
  | range (header : RangeHeader)

def previewRange (offset length : UInt64) : Except ContentError (Option ByteRange) :=
  (byteRange offset length).elim (.error .invalidRange) fun range => .ok (some range)

def saturatingSub (a b : UInt64) : UInt64 := if b ≤ a then a - b else 0

/-- `parse_preview_range`. -/
def parsePreviewRange (field : RangeField) (size : UInt64) : Except ContentError (Option ByteRange) :=
  match field with
  | .absent => .ok none
  | .unreadable => .error .invalidRange
  | .range (.suffix length) =>
    if length < 2 ^ 64 then previewRange (saturatingSub size (.ofNat length))
      (min (.ofNat length) size) else .error .invalidRange
  | .range (.onward first) =>
    if first < 2 ^ 64 then
      previewRange (.ofNat first) (min (saturatingSub size (.ofNat first)) (saturatingSub size (.ofNat first)))
    else .error .invalidRange
  | .range (.span first last) =>
    if first < 2 ^ 64 ∧ last + 1 < 2 ^ 64 then
      previewRange (.ofNat first)
        (min (saturatingSub (.ofNat (last + 1)) (.ofNat first)) (saturatingSub size (.ofNat first)))
    else .error .invalidRange

/-! ## The response -/

inductive Disposition where
  | inline
  | attachment
  deriving DecidableEq

structure Response where
  partialContent : Bool
  contentType : String
  contentLength : Nat
  acceptRanges : Bool
  disposition : Disposition
  contentRange : Option ContentRange
  etag : Option ETag
  body : Bytes
  deriving DecidableEq

def byteResponse (result : GetResult) (metadata : StoredVersion) (disposition : Disposition) (rangesAllowed : Bool) :
    Response where
  partialContent := result.range.isSome
  contentType :=
    match disposition with
    | .attachment => "application/octet-stream"
    | .inline => (PreviewKind.canonicalContentType (metadata.contentType.getD "")).getD "application/octet-stream"
  contentLength := result.range.elim metadata.size.toNat fun resolved => resolved.length.toNat
  acceptRanges := rangesAllowed
  disposition := disposition
  contentRange := result.range.map fun resolved =>
    ⟨resolved.offset.toNat, resolved.offset.toNat + resolved.length.toNat - 1, metadata.size.toNat⟩
  etag := none
  body := result.body

inductive ContentReply where
  | content (response : Response)
  | notModified (etag : ETag)
  deriving DecidableEq

/-- The comparison of `If-None-Match` with the tag of the metadata. -/
def revalidates (presented : Option String) (etag : ETag) : Bool :=
  presented.any fun presented => (presented.toList.splitOn ',').any fun candidate =>
    trimWhile (· = '"') (trimWhile isWhiteSpace candidate) = etag.value.toList

/-- `public_share_content`, once the link is authorised. -/
def publicShareContent (h : History) (t : Moments) (download budgeted : Bool) (field : RangeField) :
    Except ContentError ContentReply :=
  (readMetadata h t.head).bind fun metadata =>
    (if budgeted then .ok none else parsePreviewRange field metadata.size).bind fun range =>
      (if download then .ok Disposition.attachment
        else if !(PreviewKind.classify metadata.contentType).allowsInline then .error .sharePreviewUnsupported
        else (verifySignature h t.probe metadata).bind fun _ => .ok .inline).bind fun disposition =>
          (openStream h t.stream range).bind fun result =>
            .ok (.content (byteResponse result metadata disposition !budgeted))

/-- `public_embed_content`, once the link is authorised; `contentType` is the type that the link was created for. -/
def publicEmbedContent (h : History) (t : Moments) (linkDisposition : Disposition) (contentType : String)
    (ifNoneMatch : Option String) (field : RangeField) : Except ContentError ContentReply :=
  (readMetadata h t.head).bind fun metadata =>
    (if linkDisposition = .attachment then .ok Disposition.attachment
      else if !(PreviewKind.classify metadata.contentType).allowsInline ∨
        PreviewKind.canonicalContentType (metadata.contentType.getD "") ≠ some contentType then
          .error .embedContentChanged
      else (verifySignature h t.probe metadata).bind fun _ => .ok .inline).bind fun disposition =>
        if revalidates ifNoneMatch metadata.etag then .ok (.notModified metadata.etag)
        else (parsePreviewRange field metadata.size).bind fun range =>
          (openStream h t.stream range).bind fun result =>
            .ok (.content { byteResponse result metadata disposition true with etag := some metadata.etag })

/-- The two public routes that carry bytes. -/
inductive ContentRoute where
  | share (download budgeted : Bool)
  | embed (disposition : Disposition) (contentType : String) (ifNoneMatch : Option String)

def ContentRoute.disposition : ContentRoute → Disposition
  | .share download _ => if download then .attachment else .inline
  | .embed disposition _ _ => disposition

def ContentRoute.tagged : ContentRoute → Bool
  | .share .. => false
  | .embed .. => true

def publicContent (h : History) (t : Moments) (route : ContentRoute) (field : RangeField) :
    Except ContentError ContentReply :=
  match route with
  | .share download budgeted => publicShareContent h t download budgeted field
  | .embed disposition contentType ifNoneMatch => publicEmbedContent h t disposition contentType ifNoneMatch field

/-! ## What a response has to say -/

/-- Length and range of the response are those of the bytes, as a part of the version. -/
def Extent (v : StoredVersion) (r : Response) : Prop :=
  (r.contentRange = none ∧ r.contentLength = v.content.length ∧ r.body = v.content) ∨
  ∃ offset, r.contentRange = some ⟨offset, offset + r.contentLength - 1, v.content.length⟩ ∧ 0 < r.contentLength ∧
    offset + r.contentLength ≤ v.content.length ∧ r.body = (v.content.drop offset).take r.contentLength

/-- The version that is streamed is the one the response describes; sent inline, it is also the one that was classified
and whose leading bytes were verified. -/
structure Describes (h : History) (t : Moments) (r : Response) (v : StoredVersion) : Prop where
  streamed : h.current t.stream = some v
  extent : Extent v r
  tag : ∀ etag ∈ r.etag, etag = v.etag
  attachment : r.disposition = .attachment → r.contentType = "application/octet-stream"
  classified : r.disposition = .inline → h.current t.head = some v ∧ (PreviewKind.classify v.contentType).allowsInline ∧
    PreviewKind.canonicalContentType (v.contentType.getD "") = some r.contentType
  verified : r.disposition = .inline → v.content ≠ [] → h.current t.probe = some v ∧
    contentSignatureMatches (v.contentType.getD "") (v.content.take contentSignatureProbeBytes.toNat)

/-- Nothing changes between the reads that would show: inline, the three find one version; as an attachment, the first
and the last find versions of one size and, where the response has a tag, of one tag. -/
def Settled (h : History) (t : Moments) (route : ContentRoute) : Prop :=
  (route.disposition = .inline → ∀ v, h.current t.head = some v →
    h.current t.stream = some v ∧ (v.content ≠ [] → h.current t.probe = some v)) ∧
  (route.disposition = .attachment → ∀ v w, h.current t.head = some v → h.current t.stream = some w →
    v.content.length = w.content.length ∧ (route.tagged → v.etag = w.etag))

/-! ## Single reads -/

section Reads

variable {h : History} {moment : Nat} {range : Option ByteRange} {result : GetResult} {v w : StoredVersion}

theorem readMetadata_ok (hread : readMetadata h moment = .ok v) : h.current moment = some v := by
  unfold readMetadata at hread
  cases hv : h.current moment with
  | none =>
    rw [hv] at hread
    cases hread
  | some v' =>
    rw [hv] at hread
    exact congrArg some (Except.ok.inj hread)

/-- A stream carries the version that is current when it is opened, whole or clipped to the range. -/
theorem openStream_ok (hopen : openStream h moment range = .ok result) : ∃ w, h.current moment = some w ∧
    (range = none ∧ result = ⟨w, none, w.content⟩ ∨
      ∃ r resolved, range = some r ∧ r.offset.toNat < w.content.length ∧ resolved.offset.toNat = r.offset.toNat ∧
        resolved.length.toNat = min r.length.toNat (w.content.length - r.offset.toNat) ∧
        result = ⟨w, some resolved, (w.content.drop resolved.offset.toNat).take resolved.length.toNat⟩) := by
  unfold openStream History.get at hopen
  cases hw : h.current moment with
  | none =>
    rw [hw] at hopen
    cases hopen
  | some w =>
    rw [hw] at hopen
    refine ⟨w, rfl, ?_⟩
    cases range with
    | none => exact .inl ⟨rfl, (Except.ok.inj hopen).symm⟩
    | some r =>
      rcases resolve_cases r w.size with ⟨-, e, he⟩ | ⟨resolved, hlt, hresolve, hoffset, hlength⟩
      · simp only [he] at hopen
        cases hopen
      · simp only [hresolve] at hopen
        rw [w.size_toNat] at hlt hlength
        exact .inr ⟨r, resolved, rfl, hlt, hoffset, hlength, (Except.ok.inj hopen).symm⟩

/-- The probe's range starts at the front and is not longer than the object. -/
theorem probe_range (hsize : v.size ≠ 0) : ∃ r, byteRange 0 (min v.size contentSignatureProbeBytes) = some r ∧
    r.offset.toNat = 0 ∧ r.length.toNat = min v.content.length 64 := by
  have hlength : (min v.size contentSignatureProbeBytes).toNat = min v.content.length 64 := by
    rw [toNat_min, v.size_toNat]
    rfl
  have hpos : v.content.length ≠ 0 := by
    rwa [← v.size_toNat, ne_eq, ← UInt64.toNat_zero, UInt64.toNat_inj]
  have hok : min v.size contentSignatureProbeBytes ≠ 0 ∧
      (0 : UInt64).toNat + (min v.size contentSignatureProbeBytes).toNat < 2 ^ 64 := by
    refine ⟨fun hzero => ?_, ?_⟩
    · rw [hzero, UInt64.toNat_zero] at hlength
      omega
    · rw [hlength, UInt64.toNat_zero]
      omega
  exact ⟨⟨0, _, hok.1, hok.2⟩, dif_pos hok, rfl, hlength⟩

/-- A verified object that still holds the version of the metadata has the signature of its type. -/
theorem verifySignature_ok {contentType : String} (hverify : verifySignature h moment v = .ok ())
    (htype : v.contentType = some contentType) (hv : h.current moment = some v) (hne : v.content ≠ []) :
    contentSignatureMatches contentType (v.content.take contentSignatureProbeBytes.toNat) = true := by
  have hsize : v.size ≠ 0 := by
    intro hzero
    have hlength := v.size_toNat
    rw [hzero, UInt64.toNat_zero] at hlength
    exact hne (List.eq_nil_of_length_eq_zero hlength.symm)
  obtain ⟨r, hr, hoffset, hlength⟩ := probe_range hsize
  simp only [verifySignature, htype, Option.elim_some, if_neg hsize, hr] at hverify
  cases hopen : openStream h moment (some r) with
  | error e =>
    rw [hopen] at hverify
    cases hverify
  | ok result =>
    obtain ⟨w, hw, ⟨hrange, -⟩ | ⟨r', resolved, hrange, -, ho, hl, hresult⟩⟩ := openStream_ok hopen
    · cases hrange
    obtain rfl := Option.some.inj hrange
    obtain rfl : v = w := Option.some.inj (hv.symm.trans hw)
    simp only [hopen, Except.bind] at hverify
    split_ifs at hverify with hmatch
    rw [hoffset] at ho hl
    have hprobe : readProbe result = v.content.take contentSignatureProbeBytes.toNat := by
      rw [hresult, readProbe, ho, hl, hlength, List.drop_zero, List.take_take]
      exact List.take_eq_take_iff.mpr (by rw [show contentSignatureProbeBytes.toNat = 64 from rfl]; omega)
    rw [hprobe] at hmatch
    exact hmatch

/-- A type that may be shown inline has a canonical form. -/
theorem canonical_of_allowsInline {contentType : Option String}
    (hinline : (PreviewKind.classify contentType).allowsInline = true) :
    ∃ canonical, PreviewKind.canonicalContentType (contentType.getD "") = some canonical := by
  cases contentType with
  | none => cases hinline
  | some contentType =>
    refine Option.isSome_iff_exists.mp ?_
    rw [PreviewKind.classify, Option.elim_some] at hinline
    rw [Option.getD_some, PreviewKind.canonicalContentType]
    generalize essence contentType = e at hinline ⊢
    have hlisted : ∀ types : List String,
      types.all (fun e => (PreviewKind.canonicalOfEssence e).isSome) = true → e ∈ types →
        (PreviewKind.canonicalOfEssence e).isSome = true := fun types hall hmem => List.all_eq_true.mp hall e hmem
    unfold PreviewKind.ofEssence at hinline
    split_ifs at hinline with himage hvideo haudio hpdf htext hjson hunsafe
    · exact hlisted _ (by decide +kernel) himage
    · exact hlisted _ (by decide +kernel) hvideo
    · exact hlisted _ (by decide +kernel) haudio
    · exact hlisted _ (by decide +kernel) (List.mem_singleton.mpr hpdf)
    · exact hlisted _ (by decide +kernel) htext
    · exact hlisted _ (by decide +kernel) (List.mem_singleton.mpr hjson)
    · cases hinline
    · cases hinline

end Reads

/-! ## Whole requests -/

section Requests

variable {h : History} {t : Moments} {route : ContentRoute} {field : RangeField} {r : Response}

theorem byteResponse_untagged (result : GetResult) (v : StoredVersion) (disposition : Disposition)
    (rangesAllowed : Bool) :
    byteResponse result v disposition rangesAllowed = { byteResponse result v disposition rangesAllowed with etag :=
      none } := rfl

/-- A response with bytes: where its parts come from. -/
theorem publicContent_content (hok : publicContent h t route field = .ok (.content r)) :
    ∃ v range result rangesAllowed, h.current t.head = some v ∧ openStream h t.stream range = .ok result ∧
      r = { byteResponse result v route.disposition rangesAllowed with
        etag := if route.tagged then some v.etag else none } ∧
      (route.disposition = .inline → (PreviewKind.classify v.contentType).allowsInline = true ∧
        verifySignature h t.probe v = .ok ()) := by
  cases route with
  | share download budgeted =>
    obtain ⟨v, hv, hok⟩ := bind_eq_ok hok
    obtain ⟨range, -, hok⟩ := bind_eq_ok hok
    obtain ⟨disposition, hdisposition, hok⟩ := bind_eq_ok hok
    obtain ⟨result, hopen, hok⟩ := bind_eq_ok hok
    obtain rfl := ContentReply.content.inj (Except.ok.inj hok)
    cases download with
    | true =>
      obtain rfl := Except.ok.inj hdisposition
      exact ⟨v, range, result, _, readMetadata_ok hv, hopen, rfl, nofun⟩
    | false =>
      simp only [Bool.false_eq_true, if_false] at hdisposition
      split_ifs at hdisposition with hinline
      obtain ⟨_, hverify, hdisposition⟩ := bind_eq_ok hdisposition
      obtain rfl := Except.ok.inj hdisposition
      exact ⟨v, range, result, _, readMetadata_ok hv, hopen, byteResponse_untagged result v _ _,
        fun _ => ⟨by simpa using hinline, hverify⟩⟩
  | embed linkDisposition contentType ifNoneMatch =>
    obtain ⟨v, hv, hok⟩ := bind_eq_ok hok
    obtain ⟨disposition, hdisposition, hok⟩ := bind_eq_ok hok
    split_ifs at hok
    · cases hok
    obtain ⟨range, -, hok⟩ := bind_eq_ok hok
    obtain ⟨result, hopen, hok⟩ := bind_eq_ok hok
    obtain rfl := ContentReply.content.inj (Except.ok.inj hok)
    cases linkDisposition with
    | attachment =>
      obtain rfl := Except.ok.inj hdisposition
      exact ⟨v, range, result, _, readMetadata_ok hv, hopen, rfl, nofun⟩
    | inline =>
      rw [if_neg nofun] at hdisposition
      split_ifs at hdisposition with hinline
      obtain ⟨_, hverify, hdisposition⟩ := bind_eq_ok hdisposition
      obtain rfl := Except.ok.inj hdisposition
      rw [not_or] at hinline
      exact ⟨v, range, result, _, readMetadata_ok hv, hopen, rfl, fun _ => ⟨by simpa using hinline.1, hverify⟩⟩

/-- The response is as long as it says exactly if the version it streams is as long as the one it describes. -/
theorem extent_iff {v w : StoredVersion} {range : Option ByteRange} {result : GetResult} {disposition : Disposition}
    {rangesAllowed : Bool} {etag : Option ETag} (hopen : openStream h t.stream range = .ok result)
    (hw : h.current t.stream = some w) :
    Extent w { byteResponse result v disposition rangesAllowed with etag := etag } ↔
      v.content.length = w.content.length := by
  obtain ⟨w', hw', ⟨-, rfl⟩ | ⟨r, resolved, -, hlt, hoffset, hlength, rfl⟩⟩ := openStream_ok hopen
  all_goals obtain rfl : w = w' := Option.some.inj (hw.symm.trans hw')
  · simp only [Extent, byteResponse, Option.map_none, Option.elim_none, v.size_toNat]
    constructor
    · rintro (⟨-, hsame, -⟩ | ⟨_, hrange, -⟩)
      · exact hsame
      · cases hrange
    · exact fun hsame => .inl ⟨trivial, hsame, trivial⟩
  · simp only [Extent, byteResponse, Option.map_some, Option.elim_some, v.size_toNat]
    constructor
    · rintro (⟨hrange, -⟩ | ⟨offset, hrange, -⟩)
      · cases hrange
      · exact (ContentRange.mk.inj (Option.some.inj hrange)).2.2
    · intro hsame
      have hpos : r.length.toNat ≠ 0 := fun hzero => r.length_ne_zero (UInt64.toNat_inj.mp hzero)
      refine .inr ⟨resolved.offset.toNat, by rw [hsame], ?_, ?_, rfl⟩ <;> omega

/-- A response with bytes describes the version that is streamed exactly if nothing that would show changed between the
reads; and a response without bytes carries the tag of the version that was classified. -/
theorem publicContent_describes_iff (h : History) (t : Moments) (route : ContentRoute) (field : RangeField) :
    (∀ r, publicContent h t route field = .ok (.content r) → ((∃ v, Describes h t r v) ↔ Settled h t route)) ∧
    ∀ etag, publicContent h t route field = .ok (.notModified etag) → ∃ v, h.current t.head = some v ∧
      etag = v.etag := by
  constructor
  · intro r hok
    obtain ⟨v, range, result, rangesAllowed, hv, hopen, rfl, hinline⟩ := publicContent_content hok
    obtain ⟨w, hw, -⟩ := openStream_ok hopen
    constructor
    · rintro ⟨x, hx⟩
      obtain rfl : w = x := Option.some.inj (hw.symm.trans hx.streamed)
      refine ⟨fun hdisposition v' hv' => ?_, fun hdisposition v' w' hv' hw' => ?_⟩
      · obtain rfl : w = v' := Option.some.inj ((hx.classified hdisposition).1.symm.trans hv')
        exact ⟨hw, fun hne => (hx.verified hdisposition hne).1⟩
      · obtain rfl : v = v' := Option.some.inj (hv.symm.trans hv')
        obtain rfl : w = w' := Option.some.inj (hw.symm.trans hw')
        exact ⟨(extent_iff hopen hw).mp hx.extent, fun htagged => hx.tag _ (by simp only [htagged, if_true,
          Option.mem_some_iff])⟩
    · rintro ⟨hinlined, hattached⟩
      refine ⟨w, ?_⟩
      cases hdisposition : route.disposition with
      | inline =>
        obtain ⟨hsame, hprobed⟩ := hinlined hdisposition v hv
        obtain rfl : v = w := Option.some.inj (hsame.symm.trans hw)
        obtain ⟨hallows, hverify⟩ := hinline hdisposition
        obtain ⟨canonical, hcanonical⟩ := canonical_of_allowsInline hallows
        refine ⟨hw, (extent_iff hopen hw).mpr rfl, fun etag hetag => ?_, fun hother => (by cases hother),
          fun _ => ⟨hv, hallows, ?_⟩, fun _ hne => ⟨hprobed hne, ?_⟩⟩
        · split_ifs at hetag
          · exact (Option.mem_some_iff.mp hetag).symm
          · cases hetag
        · rw [hcanonical]
          simp only [byteResponse, hcanonical, Option.getD_some]
        · cases htype : v.contentType with
          | none =>
            rw [htype] at hallows
            cases hallows
          | some contentType =>
            rw [Option.getD_some]
            exact verifySignature_ok hverify htype (hprobed hne) hne
      | attachment =>
        obtain ⟨hsize, htag⟩ := hattached hdisposition v w hv hw
        refine ⟨hw, (extent_iff hopen hw).mpr hsize, fun etag hetag => ?_, fun _ => rfl,
          fun hother => (by cases hother), fun hother => (by cases hother)⟩
        split_ifs at hetag with htagged
        · exact (Option.mem_some_iff.mp hetag).symm.trans (htag htagged)
        · cases hetag
  · intro etag hok
    cases route with
    | share download budgeted =>
      obtain ⟨v, -, hok⟩ := bind_eq_ok hok
      obtain ⟨range, -, hok⟩ := bind_eq_ok hok
      obtain ⟨disposition, -, hok⟩ := bind_eq_ok hok
      obtain ⟨result, -, hok⟩ := bind_eq_ok hok
      cases hok
    | embed linkDisposition contentType ifNoneMatch =>
      obtain ⟨v, hv, hok⟩ := bind_eq_ok hok
      obtain ⟨disposition, -, hok⟩ := bind_eq_ok hok
      split_ifs at hok
      · exact ⟨v, readMetadata_ok hv, (ContentReply.notModified.inj (Except.ok.inj hok)).symm⟩
      · obtain ⟨range, -, hok⟩ := bind_eq_ok hok
        obtain ⟨result, -, hok⟩ := bind_eq_ok hok
        cases hok

end Requests

namespace Sample

/-- An image that is overwritten with a script of the same type. -/
def picture : History :=
  Service.Sample.overwritten
    ⟨.ofNat 1, Service.Sample.tag, some "image/png", [0x89, 0x50, 0x4E, 0x47, 0x0D, 0x0A, 0x1A, 0x0A, 1, 2], by decide⟩
    ⟨.ofNat 2, Service.Sample.tag, some "image/png", asBytes "<script>!!", by decide +kernel⟩ (by decide)

def shown (body : Bytes) : Response := ⟨false, "image/png", 10, true, .inline, none, none, body⟩

end Sample

/-- Downloaded across the overwrite, the response still describes what it carries. -/
theorem publicContent_describes_download : ∃ r, publicContent Sample.picture ⟨0, 0,
    1⟩ (.share true false) .absent = .ok (.content r) ∧
    ∃ v, Describes Sample.picture ⟨0, 0, 1⟩ r v := by
  have hok : publicContent Sample.picture ⟨0, 0, 1⟩ (.share true false) .absent =
      .ok (.content ⟨false, "application/octet-stream", 10, true, .attachment, none, none, asBytes "<script>!!"⟩) :=
        by decide +kernel
  refine ⟨_, hok, ((publicContent_describes_iff Sample.picture ⟨0, 0,
    1⟩ (.share true false) .absent).1 _ hok).mpr ⟨nofun, ?_⟩⟩
  intro _ v w hv hw
  obtain rfl := Option.some.inj hv
  obtain rfl := Option.some.inj hw
  exact ⟨by decide +kernel, nofun⟩

/-- Shown inline, the script is served as the image that was probed. -/
theorem publicContent_misdescribes :
    publicContent Sample.picture ⟨0, 0, 1⟩ (.share false false) .absent =
      .ok (.content (Sample.shown (asBytes "<script>!!"))) ∧
    contentSignatureMatches "image/png" (asBytes "<script>!!") = false ∧
    ¬ ∃ v, Describes Sample.picture ⟨0, 0, 1⟩ (Sample.shown (asBytes "<script>!!")) v := by
  refine ⟨by decide +kernel, by decide +kernel, ?_⟩
  rintro ⟨v, hv⟩
  have hid := congrArg (Option.map StoredVersion.versionId) (hv.streamed.trans (hv.classified rfl).1.symm)
  exact absurd hid (by decide +kernel)

end RecordStore.Sharing
