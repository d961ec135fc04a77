import PulseGate.Http.HeadText
import PulseGate.Http.ProxyMessages

namespace PulseGate

/-!
# Which transfer codings are unwrapped

The parser of upstream responses undoes one coding, `chunked`.  What it does with the others, for
a response that may have a body and does not say how long it is.

* `codings`, `PlainChunked` — the codings that a field lists, and the single one `chunked`;
* `UnwrapsPlainOnly` — only that is decoded, and anything else is refused as unsupported;
* `unwrapsPlainOnly_iff` — so it is, unless a single field lists `chunked` among others;
* `gzip_unwrapped` — then the others are dropped with the field.
-/

/-- The codings of a list, in lower case; an empty member is none. -/
def codings (value : Bytes) : List Bytes :=
  ((value.splitOn 44).map fun member => (trim member).map tolower).filter (· ≠ [])

theorem mem_codings_iff (value : Bytes) :
    bytes "chunked" ∈ codings value ↔ containsToken value (bytes "chunked") = true := by
  have hlower : (bytes "chunked").map tolower = bytes "chunked" := by decide
  have hne : bytes "chunked" ≠ [] := by decide
  rw [containsToken_iff hne, hlower]
  simp [codings, hne]

/-- There is one field, and it lists `chunked` and nothing else. -/
def PlainChunked (h : HeadText) : Prop :=
  ∃ value, h.transfers = [value] ∧ codings value = [bytes "chunked"]

/-- There is one field, and it lists `chunked` together with another coding, or twice. -/
def ListsMore (h : HeadText) : Prop :=
  ∃ value, h.transfers = [value] ∧ bytes "chunked" ∈ codings value ∧
    codings value ≠ [bytes "chunked"]

namespace HttpResponseParser

variable {limits : HttpResponseParserLimits} {rest : Bytes}

theorem listsChunked_iff (h : HeadText) : ListsChunked h ↔ PlainChunked h ∨ ListsMore h := by
  constructor
  · rintro ⟨value, hvalue, hchunked⟩
    rw [← mem_codings_iff] at hchunked
    by_cases hplain : codings value = [bytes "chunked"]
    · exact .inl ⟨value, hvalue, hplain⟩
    · exact .inr ⟨value, hvalue, hchunked, hplain⟩
  · rintro (⟨value, hvalue, hplain⟩ | ⟨value, hvalue, hchunked, _⟩)
    · refine ⟨value, hvalue, (mem_codings_iff value).mp ?_⟩
      rw [hplain]
      exact List.mem_singleton_self _
    · exact ⟨value, hvalue, (mem_codings_iff value).mp hchunked⟩

theorem not_listsMore_of_plain {h : HeadText} (hplain : PlainChunked h) : ¬ListsMore h := by
  rintro ⟨value, hvalue, _, hmore⟩
  obtain ⟨value', hvalue', hplain⟩ := hplain
  obtain ⟨rfl, _⟩ := List.cons.inj (hvalue.symm.trans hvalue')
  exact hmore hplain

/-- A body that ends with the connection is not decoded. -/
theorem ends_eofBody (hlimits : limits.Accepted) {h : HeadText} {input : Bytes}
    (hroom : input.length ≤ vectorMaxSize)
    (hreaches : Loop.Reaches loopBody (fresh limits false, input) (atEofBody limits h, rest)) :
    ∃ r q left, (fresh limits false).parse input = .finished r q left ∧ q.chunked = false := by
  have hbounded := (reaches_advances hreaches (reading_fresh hlimits) hroom).1.1
  have hlast := loopBody_eofBody hbounded rfl rest
  by_cases hfits : (atEofBody limits h).response.body.length + rest.length ≤
      (atEofBody limits h).limits.maxBodyBytes
  · rw [if_pos hfits] at hlast
    exact ⟨_, _, _, parse_fresh hroom (hreaches.ends (.done hlast)), rfl⟩
  · rw [if_neg hfits] at hlast
    exact ⟨_, _, _, parse_fresh hroom (hreaches.ends (.done hlast)), rfl⟩

/-- Whatever follows the head: the body is decoded as chunks only for the single coding `chunked`,
    and every other list of codings is refused as unsupported. -/
def UnwrapsPlainOnly (limits : HttpResponseParserLimits) (h : HeadText) : Prop :=
  ∀ rest : Bytes, (h.text ++ rest).length ≤ vectorMaxSize →
    (∀ r q left, (fresh limits false).parse (h.text ++ rest) = .finished r q left →
      q.chunked = true → PlainChunked h) ∧
    (h.transfers ≠ [] → ¬PlainChunked h → ∃ q left,
      (fresh limits false).parse (h.text ++ rest) =
        .finished .UnsupportedTransferEncoding q left)

/-- An admitted head fits in a buffer. -/
theorem length_text_le (hlimits : limits.Accepted) {h : HeadText} (hadmitted : h.Admitted limits) :
    h.text.length ≤ vectorMaxSize := by
  have hbytes := hadmitted.bytes
  have habsolute := hlimits.2.2.2.2.1
  unfold kAbsoluteHeaderLimit at habsolute
  unfold vectorMaxSize
  omega

/-- The head alone, when it lists `chunked`. -/
theorem parse_listsChunked (hlimits : limits.Accepted) (h : UnsizedHead)
    (hadmitted : h.Admitted limits) (hlists : ListsChunked h.toHeadText) :
    (fresh limits false).parse h.text =
      .finished .NeedMore (atFirstChunk limits h.toHeadText) [] := by
  have hwaits : loopBody (atFirstChunk limits h.toHeadText, []) =
      .inl (.finished .NeedMore (atFirstChunk limits h.toHeadText) []) := rfl
  rcases reaches_unsizedBody hlimits h hadmitted [] with
    ⟨hnone, _⟩ | ⟨_, hreaches⟩ | ⟨_, hnone, _⟩
  · obtain ⟨value, hvalue, _⟩ := hlists
    rw [hnone] at hvalue
    cases hvalue
  · rw [List.append_nil] at hreaches
    exact parse_fresh (length_text_le hlimits hadmitted) (hreaches.ends (.done hwaits))
  · exact absurd hlists hnone

/-- The head alone shows that the body would be decoded. -/
theorem UnwrapsPlainOnly.not_listsMore (hlimits : limits.Accepted) {h : UnsizedHead}
    (hadmitted : h.Admitted limits) (hplain : UnwrapsPlainOnly limits h.toHeadText) :
    ¬ListsMore h.toHeadText := by
  intro hmore
  have hparse := parse_listsChunked hlimits h hadmitted ((listsChunked_iff _).mpr (.inr hmore))
  have hroom := length_text_le hlimits hadmitted
  rw [← List.append_nil h.text] at hparse hroom
  exact not_listsMore_of_plain ((hplain [] hroom).1 _ _ _ hparse rfl) hmore

/-- **Only plain `chunked` is unwrapped**, exactly unless a single field lists it with more. -/
theorem unwrapsPlainOnly_iff (limits : HttpResponseParserLimits) (hlimits : limits.Accepted)
    (h : UnsizedHead) (hadmitted : h.Admitted limits) :
    UnwrapsPlainOnly limits h.toHeadText ↔ ¬ListsMore h.toHeadText := by
  refine ⟨fun hplain => hplain.not_listsMore hlimits hadmitted, fun hmore rest hroom => ?_⟩
  rcases reaches_unsizedBody hlimits h hadmitted rest with
    ⟨hnone, hreaches⟩ | ⟨hlists, _⟩ | ⟨_, _, hends⟩
  · obtain ⟨r, q, left, hparse, hchunked⟩ := ends_eofBody hlimits hroom hreaches
    refine ⟨?_, fun hsome => absurd hnone hsome⟩
    intro r' q' left' hparse' hchunked'
    obtain ⟨_, rfl, _⟩ := ParseOutcome.finished.inj (hparse.symm.trans hparse')
    rw [hchunked] at hchunked'
    cases hchunked'
  · have hplain := ((listsChunked_iff _).mp hlists).resolve_right hmore
    exact ⟨fun _ _ _ _ _ => hplain, fun _ hnot => absurd hplain hnot⟩
  · have hparse := parse_fresh hroom hends
    refine ⟨?_, fun _ _ => ⟨_, _, hparse⟩⟩
    intro r q left hparse' hchunked
    obtain ⟨_, rfl, _⟩ := ParseOutcome.finished.inj (hparse.symm.trans hparse')
    cases hchunked

/-- A head with one field for the coding of the body. -/
def codedHead (value : Bytes) (hvalue : isValidHeaderValue (trim value) = true) : UnsizedHead where
  start := okLine
  fields :=
    [{ name := bytes "Transfer-Encoding", spelled := value,
       validName := validName_transferEncoding, validValue := hvalue }]
  final := noBodyStatus_okLine
  lengths := rfl

/-- A head that lists a coding which is not supported. -/
def gzipHead : UnsizedHead := codedHead (bytes "gzip") (by decide)

/-- A body that was compressed, and then sent in chunks. -/
def gzipChunkedHead : UnsizedHead := codedHead (bytes "gzip, chunked") (by decide)

/-- The theorem at a head that lists `gzip` only. -/
theorem unwrapsPlainOnly_gzip : UnwrapsPlainOnly {} gzipHead.toHeadText := by
  apply (unwrapsPlainOnly_iff {} (by decide) gzipHead ⟨by decide, by decide, by decide⟩).mpr
  rintro ⟨value, hvalue, hchunked, _⟩
  obtain ⟨rfl, _⟩ := List.cons.inj hvalue
  exact absurd hchunked (by decide)

/-- **Another coding is lost.** The body is decoded as chunks, and what the proxy sends on does
    not say that it is compressed. -/
theorem gzip_unwrapped :
    ¬UnwrapsPlainOnly {} gzipChunkedHead.toHeadText ∧
      ∃ q, (fresh {} false).parse gzipChunkedHead.text = .finished .NeedMore q [] ∧
        q.chunked = true ∧ (sanitizeUpstreamResponse q.response).headers = {} := by
  have hadmitted : gzipChunkedHead.Admitted {} := ⟨by decide, by decide, by decide⟩
  have hchunked : ListsChunked gzipChunkedHead.toHeadText :=
    ⟨bytes "gzip, chunked", by decide, by decide⟩
  have hmore : ListsMore gzipChunkedHead.toHeadText :=
    ⟨bytes "gzip, chunked", by decide, by decide, by decide⟩
  refine ⟨fun hplain => hplain.not_listsMore (by decide) hadmitted hmore,
    atFirstChunk {} gzipChunkedHead.toHeadText, ?_, rfl, by decide⟩
  exact parse_listsChunked (by decide) gzipChunkedHead hadmitted hchunked

end HttpResponseParser
end PulseGate
