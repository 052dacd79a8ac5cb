import TradingEngine.Http.FormData
import TradingEngine.Http.RequestAssembly
import TradingEngine.Json.ParseResult

/-!
# Http/RequestErrors — the texts a request is made of without an exception

`deserialize_header_params` goes two characters past the first line break; the constructor of a
request with a body runs the JSON parser and the form loop over it; and `is_valid_format` hands a
header to `std::stoi`.  Each of the three has texts it does not come back from:
`returnsNormally_iff`.
-/

namespace TradingEngine

open Ascii JsonParse

namespace HttpRequest

variable {doubles : DoubleText} {content body : List UInt8} {fuel : ℕ}

/-! ## The header -/

/-- The first line break of a text is its last character. -/
def EndsAtLineBreak (content : List UInt8) : Prop :=
  (content.dropWhile fun c => c ≠ cr ∧ c ≠ lf).length = 1

instance (content : List UInt8) : Decidable (EndsAtLineBreak content) :=
  inferInstanceAs (Decidable (_ = _))

/-- The header begins within the text, unless the first line break ends it. -/
theorem startOfHeader_le_iff (hne : content ≠ []) :
    startOfHeader content ≤ content.length ↔ ¬ EndsAtLineBreak content := by
  have hparts := congrArg List.length
    (List.takeWhile_append_dropWhile (p := fun c => c ≠ cr ∧ c ≠ lf) (l := content))
  rw [List.length_append] at hparts
  rw [startOfHeader, EndsAtLineBreak]
  split_ifs with hbreak
  · have hrest : content.dropWhile (fun c => c ≠ cr ∧ c ≠ lf) ≠ [] := by
      rw [Ne, List.dropWhile_eq_nil_iff]
      intro hall
      rcases hbreak with hmem | hmem
      · exact (of_decide_eq_true (hall cr hmem)).1 rfl
      · exact (of_decide_eq_true (hall lf hmem)).2 rfl
    have hpos := List.length_pos_iff.mpr hrest
    omega
  · have hrest : content.dropWhile (fun c => c ≠ cr ∧ c ≠ lf) = [] := by
      refine List.dropWhile_eq_nil_iff.mpr fun c hc => decide_eq_true ⟨?_, ?_⟩
      · exact fun heq => hbreak (.inl (heq ▸ hc))
      · exact fun heq => hbreak (.inr (heq ▸ hc))
    rw [hrest]
    exact iff_of_true (List.length_pos_iff.mpr hne) (Nat.zero_ne_one)

/-- The text of the header lines. -/
def headerBlock (content : List UInt8) : List UInt8 :=
  match find headEnd content with
  | some stop =>
    if startOfHeader content ≤ stop then (content.take stop).drop (startOfHeader content)
    else content.drop (startOfHeader content)
  | none => content.drop (startOfHeader content)

/-- The header lines of two pieces. -/
def headerFields (content : List UInt8) : List (List UInt8 × List UInt8) :=
  (splitString crlf (headerBlock content)).filterMap headerPair

theorem deserializeHeaderParams_throws (hne : content ≠ []) (h : EndsAtLineBreak content) :
    deserializeHeaderParams content = .throws := by
  have hlong := mt (startOfHeader_le_iff hne).mp (not_not.mpr h)
  rw [deserializeHeaderParams]
  unfold substr
  rw [if_pos (Nat.lt_of_not_le hlong)]
  rfl

theorem deserializeHeaderParams_ok (hne : content ≠ []) (h : ¬ EndsAtLineBreak content) :
    deserializeHeaderParams content =
      .ok ((headerFields content).foldl insertParam fun _ => none) := by
  have hblock : substr (startOfHeader content) (find headEnd content) content =
      .ok (headerBlock content) := by
    unfold substr
    rw [headerBlock, if_neg (Nat.not_lt.mpr ((startOfHeader_le_iff hne).mpr h))]
    cases find headEnd content <;> rfl
  rw [deserializeHeaderParams, hblock]
  rfl

/-! ## The content length -/

/-- The value of the first header line with a name, unless it is the text of `PARAM_NOT_FOUND`. -/
def announced (content name : List UInt8) : Option (List UInt8) :=
  (((headerFields content).find? fun field => field.1 = name).map (·.2)).filter (· ≠ paramNotFound)

/-- What `std::stoi` has to read. -/
def announcedLength (content : List UInt8) : Option (List UInt8) :=
  (announced content (text "Content-Length")).or (announced content (text "content-length"))

theorem getHeaderParam_of_announced {request : HttpRequest} {name : List UInt8}
    (hparams : request.headerParams = (headerFields content).foldl insertParam fun _ => none) :
    (announced content name = none ∧ request.getHeaderParam name = paramNotFound) ∨
      (announced content name = some (request.getHeaderParam name) ∧
        request.getHeaderParam name ≠ paramNotFound) := by
  rw [announced, getHeaderParam, hparams, foldl_insertParam, Option.none_or]
  cases ((headerFields content).find? fun field => field.1 = name).map (·.2) with
  | none => exact .inl ⟨rfl, rfl⟩
  | some value =>
    rw [Option.getD_some, Option.filter_some]
    by_cases hvalue : value = paramNotFound
    · exact .inl ⟨if_neg (by simp [hvalue]), hvalue⟩
    · exact .inr ⟨if_pos (decide_eq_true hvalue), hvalue⟩

/-- **The length is read** if `std::stoi` reads the value of its header line. -/
theorem isSome_contentLength_iff {request : HttpRequest}
    (hparams : request.headerParams = (headerFields content).foldl insertParam fun _ => none) :
    request.contentLength.isSome ↔ ∀ value ∈ announcedLength content, (stoi value).isSome := by
  rw [contentLength, announcedLength]
  rcases getHeaderParam_of_announced hparams with ⟨hnone, hfirst⟩ | ⟨hsome, hfirst⟩
  · rw [if_neg (not_not.mpr hfirst), hnone, Option.none_or]
    rcases getHeaderParam_of_announced hparams with ⟨hnone', hsecond⟩ | ⟨hsome', hsecond⟩
    · rw [if_neg (not_not.mpr hsecond), hnone']
      simp
    · rw [if_pos hsecond, hsome']
      simp only [Option.mem_def, Option.some.injEq, forall_eq']
  · rw [if_pos hfirst, hsome, Option.some_or]
    simp only [Option.mem_def, Option.some.injEq, forall_eq']

/-! ## The body -/

variable (doubles) in
/-- The JSON parser and the form loop come to an end on a body. -/
structure BodyReadable (body : List UInt8) : Prop where
  json : ¬ Scanner.Jams doubles body
  inside : ¬ FormThrows body
  frame : ¬ keyFormat <+: body

/-- **The bodies that are read.** -/
theorem parseBody_returns_iff :
    (∃ fuel json, HttpRequest.parseBody doubles fuel body = .ok json) ↔
      BodyReadable doubles body := by
  constructor
  · rintro ⟨fuel, result, hbody⟩
    obtain ⟨json, ok, hparse, filled, hform, -⟩ := parseBody_eq_ok_iff.mp hbody
    have hends : deserializeBodyFormData fuel body json ≠ .running := by
      rw [hform]
      exact nofun
    have hmore := deserializeBodyFormData_of_le hends (Nat.le_add_right fuel (body.length + 1))
    refine ⟨(exists_isSome_parse_iff _).mp ⟨fuel, by rw [hparse]; rfl⟩, fun hthrows => ?_,
      fun hbegin => ?_⟩
    · rw [form_throws hthrows (by omega), hform] at hmore
      cases hmore
    · by_cases hthrows : FormThrows body
      · rw [form_throws hthrows (by omega), hform] at hmore
        cases hmore
      · exact hends (form_runs hthrows hbegin fuel json)
  · intro h
    obtain ⟨fuel, hsome⟩ := (exists_isSome_parse_iff _).mpr h.json
    obtain ⟨⟨json, ok⟩, hparse⟩ := Option.isSome_iff_exists.mp hsome
    have hlong : body.length < fuel + (body.length + 1) := by omega
    obtain ⟨filled, hform⟩ := form_reads h.inside h.frame hlong json
    exact ⟨_, _, parseBody_eq_ok_iff.mpr ⟨json, ok, parse_of_le hparse (Nat.le_add_right _ _),
      filled, hform, rfl⟩⟩

/-! ## The request -/

/-- The method a request is made for. -/
def methodOf (content : List UInt8) : Option RequestMethod :=
  if space ∈ content then RequestMethod.ofWord (content.takeWhile fun c => c ≠ space) else none

theorem createNewHttpRequest_eq (doubles : DoubleText) (fuel : ℕ) (content : List UInt8) :
    createNewHttpRequest doubles fuel content =
      (methodOf content).map fun method => generate doubles fuel method content := by
  rw [createNewHttpRequest, methodOf]
  split_ifs <;> rfl

variable (doubles) in
/-- The bytes give a request or `nullptr`, and the request answers `is_valid_format`. -/
def ReturnsNormally (content : List UInt8) : Prop :=
  ∃ fuel, ∀ call ∈ createNewHttpRequest doubles fuel content,
    ∃ request, call = .ok request ∧ request.isValidFormat.isSome

variable (doubles) in
/-- **The condition.**  If a request is made, the first line break does not end the text; and if it
has a body, the body is readable and the content length is a number. -/
def Readable (content : List UInt8) : Prop :=
  ∀ method ∈ methodOf content, ¬ EndsAtLineBreak content ∧
    (method.hasBody = true → BodyReadable doubles (bodyOf content) ∧
      ∀ value ∈ announcedLength content, (stoi value).isSome)

/-- A request without its body. -/
theorem deserialize_ok (method : RequestMethod) (hne : content ≠ [])
    (h : ¬ EndsAtLineBreak content) :
    ∃ request, deserialize method content = .ok request ∧ request.method = method ∧
      request.headerParams = (headerFields content).foldl insertParam fun _ => none := by
  rw [deserialize, deserializeHeaderParams_ok hne h]
  exact ⟨_, rfl, rfl, rfl⟩

/-- **One request.** -/
theorem generate_returns_iff (method : RequestMethod) (hne : content ≠ []) :
    (∃ fuel request, generate doubles fuel method content = .ok request ∧
      request.isValidFormat.isSome) ↔
    ¬ EndsAtLineBreak content ∧ (method.hasBody = true → BodyReadable doubles (bodyOf content) ∧
      ∀ value ∈ announcedLength content, (stoi value).isSome) := by
  by_cases hbreak : EndsAtLineBreak content
  · refine iff_of_false ?_ fun h => h.1 hbreak
    rintro ⟨fuel, request, hmade, -⟩
    rw [generate, deserialize, deserializeHeaderParams_throws hne hbreak] at hmade
    cases hmade
  obtain ⟨request, hrequest, hmethod, hparams⟩ := deserialize_ok method hne hbreak
  simp only [generate, hrequest, Call.andThen]
  by_cases hbody : method.hasBody = true
  · have hlength := isSome_contentLength_iff hparams
    rw [and_iff_right hbreak, forall_prop_of_true hbody, ← parseBody_returns_iff]
    simp only [if_pos hbody]
    constructor
    · rintro ⟨fuel, made, hmade, hvalid⟩
      cases hjson : HttpRequest.parseBody doubles fuel (bodyOf content) with
      | running =>
        rw [hjson] at hmade
        cases hmade
      | throws =>
        rw [hjson] at hmade
        cases hmade
      | ok json =>
        rw [hjson] at hmade
        cases hmade
        refine ⟨⟨fuel, json, hjson⟩, hlength.mp ?_⟩
        rw [isValidFormat, if_pos (hmethod.symm ▸ hbody), Option.isSome_map] at hvalid
        exact hvalid
    · rintro ⟨⟨fuel, json, hjson⟩, hnumber⟩
      refine ⟨fuel, _, by rw [hjson], ?_⟩
      rw [isValidFormat, if_pos (hmethod.symm ▸ hbody), Option.isSome_map]
      exact hlength.mpr hnumber
  · refine iff_of_true ⟨0, request, if_neg hbody, ?_⟩ ⟨hbreak, fun h => absurd h hbody⟩
    rw [isValidFormat, if_neg (hmethod.symm ▸ hbody)]
    rfl

/-- **The bytes a server does not throw on**: just the readable ones. -/
theorem returnsNormally_iff (doubles : DoubleText) (content : List UInt8) :
    ReturnsNormally doubles content ↔ Readable doubles content := by
  rw [ReturnsNormally, Readable]
  simp only [createNewHttpRequest_eq]
  cases hmethod : methodOf content with
  | none => exact iff_of_true ⟨0, nofun⟩ nofun
  | some method =>
    have hne : content ≠ [] := by
      rintro rfl
      cases hmethod
    simp only [Option.map_some, Option.mem_def, Option.some.injEq, forall_eq']
    exact generate_returns_iff method hne

/-- A request that is cut behind the `'\r'` of its first line. -/
theorem cut_not_returnsNormally :
    ¬ ReturnsNormally ⟨fun _ => [], fun _ => none⟩ (text "GET / HTTP/1.1" ++ [cr]) := by
  rintro ⟨fuel, hcalls⟩
  obtain ⟨request, hmade, -⟩ := hcalls .throws rfl
  cases hmade

end HttpRequest

/-- **The read handler returns** just when the request does. -/
theorem HttpSocketConnection.handleRead_returns_iff {doubles : DoubleText}
    {conn : HttpSocketConnection} {buffer : List UInt8} :
    (∃ fuel result, conn.handleRead doubles fuel buffer = .ok result) ↔
      HttpRequest.ReturnsNormally doubles (cStr (conn.saveBuffer ++ buffer)) := by
  refine exists_congr fun fuel => ?_
  rw [handleRead]
  cases HttpRequest.createNewHttpRequest doubles fuel (cStr (conn.saveBuffer ++ buffer)) with
  | none => simp
  | some call =>
    simp only [Option.mem_def, Option.some.injEq, forall_eq']
    cases call with
    | running => simp [Call.andThen]
    | throws => simp [Call.andThen]
    | ok request =>
      simp only [Call.andThen, Call.ok.injEq, exists_eq_left']
      cases request.isValidFormat with
      | none => simp
      | some valid => cases valid <;> exact iff_of_true ⟨_, rfl⟩ rfl

end TradingEngine
