import Mathlib.Data.List.Nodup
import TradingEngine.Http.Lines

/-!
# Http/RequestParams — the parameters of a request, and what is found of them

A query string is read up to its first parameter without a value; a header line is split wherever a
colon and a blank stand in it, and is dropped if there are more than two parts.  `retrieved_iff` says
which requests have all their parameters found.
-/

namespace TradingEngine

open Ascii

/-! ## Requests with parameters -/

/-- A parameter of a query string. -/
inductive QueryParam
  | pair (key value : List UInt8)
  | bare (key : List UInt8)

namespace QueryParam

def key : QueryParam → List UInt8
  | .pair key _ => key
  | .bare key => key

def value : QueryParam → List UInt8
  | .pair _ value => value
  | .bare _ => []

def isPair : QueryParam → Bool
  | .pair _ _ => true
  | .bare _ => false

def text : QueryParam → List UInt8
  | .pair key value => key ++ HttpRequest.equalsSign :: value
  | .bare key => key

end QueryParam

/-- A header line: `Name: value`. -/
def headerText (header : List UInt8 × List UInt8) : List UInt8 :=
  header.1 ++ colon :: space :: header.2

/-- A complete request with parameters in its query string and its header. -/
structure ParamRequest where
  method : RequestMethod
  path : List UInt8
  params : List QueryParam
  version : List UInt8
  headers : List (List UInt8 × List UInt8)
  body : List UInt8
  path_char : ∀ c ∈ path, c ≠ space ∧ c ≠ cr ∧ c ≠ lf ∧ c ≠ HttpRequest.questionMark
  param_char : ∀ p ∈ params, ∀ c ∈ p.text,
    c ≠ space ∧ c ≠ cr ∧ c ≠ lf ∧ c ≠ HttpRequest.ampersand
  key_char : ∀ p ∈ params, HttpRequest.equalsSign ∉ p.key
  keys : (params.map (·.key)).Nodup
  version_char : ∀ c ∈ version, c ≠ cr ∧ c ≠ lf
  name_char : ∀ header ∈ headers, colon ∉ header.1
  header_line : ∀ header ∈ headers, OneLine (headerText header)
  names : (headers.map (·.1)).Nodup

/-- `get_query_param`. -/
def HttpRequest.getQueryParam (request : HttpRequest) (param : List UInt8) : List UInt8 :=
  (request.queryParams param).getD paramNotFound

namespace ParamRequest

variable (request : ParamRequest)

/-- The parameters, joined. -/
def query : List UInt8 := [HttpRequest.ampersand].intercalate (request.params.map QueryParam.text)

def target : List UInt8 :=
  request.path ++ if request.params = [] then [] else HttpRequest.questionMark :: request.query

def requestLine : List UInt8 :=
  request.method.word ++ space :: (request.target ++ space :: request.version)

def block : List UInt8 := joinLines request.requestLine (request.headers.map headerText)

def bytes : List UInt8 := request.block ++ (headEnd ++ request.body)

/-- **Every parameter is found** in the request that is made. -/
structure Retrieved (made : HttpRequest) : Prop where
  query : ∀ key value, .pair key value ∈ request.params → made.getQueryParam key = value
  header : ∀ header ∈ request.headers, made.getHeaderParam header.1 = header.2

/-- **The condition.**  No parameter with a value stands behind one without, unless its value is what
is answered for a missing one; no header value has a colon and a blank in it. -/
structure Readable : Prop where
  query : ∀ front key back, request.params = front ++ .bare key :: back →
    ∀ key' value, .pair key' value ∈ back → value = HttpRequest.paramNotFound
  header : ∀ header ∈ request.headers, cut [colon, space] header.2 = none

end ParamRequest

/-- **A first-come map finds what was put into it**, if the names are distinct. -/
theorem foldl_insertParam_of_nodup {pairs : List (List UInt8 × List UInt8)}
    (hnodup : (pairs.map (·.1)).Nodup) {pair : List UInt8 × List UInt8} (h : pair ∈ pairs) :
    pairs.foldl insertParam (fun _ => none) pair.1 = some pair.2 := by
  rw [foldl_insertParam, Option.none_or, find?_of_nodup hnodup h]
  rfl

theorem foldl_insertParam_of_notMem {pairs : List (List UInt8 × List UInt8)} {name : List UInt8}
    (h : name ∉ pairs.map (·.1)) : pairs.foldl insertParam (fun _ => none) name = none := by
  rw [foldl_insertParam, Option.none_or, Option.map_eq_none_iff, List.find?_eq_none]
  intro pair hpair hname
  exact h (List.mem_map.mpr ⟨pair, hpair, of_decide_eq_true hname⟩)

/-! ## The query string -/

namespace ParamRequest

variable {request : ParamRequest}

theorem mem_intercalate {sep : List UInt8} {parts : List (List UInt8)} {c : UInt8}
    (h : c ∈ sep.intercalate parts) : c ∈ sep ∨ ∃ part ∈ parts, c ∈ part := by
  induction parts with
  | nil => cases h
  | cons part parts ih =>
    cases parts with
    | nil =>
      rw [List.intercalate_singleton] at h
      exact .inr ⟨part, List.mem_cons_self, h⟩
    | cons next parts =>
      rw [List.intercalate_cons_cons, List.mem_append, List.mem_append] at h
      rcases h with (hpart | hsep) | hrest
      · exact .inr ⟨part, List.mem_cons_self, hpart⟩
      · exact .inl hsep
      · exact (ih hrest).imp_right fun ⟨other, hother, hmem⟩ =>
          ⟨other, List.mem_cons_of_mem part hother, hmem⟩

/-- Parts without the separator are split as they were joined. -/
theorem splitString_intercalate {d : UInt8} {part : List UInt8} {parts : List (List UInt8)}
    (h : ∀ p ∈ part :: parts, d ∉ p) :
    splitString [d] ([d].intercalate (part :: parts)) = part :: parts := by
  induction parts generalizing part with
  | nil =>
    rw [List.intercalate_singleton]
    exact splitString_none (cut_eq_none_of_notMem (h part List.mem_cons_self) [])
  | cons next parts ih =>
    have hcut : cut [d] (part ++ ([d] ++ [d].intercalate (next :: parts))) =
        some (part, [d].intercalate (next :: parts)) :=
      cut_of_notMem_mark (h part List.mem_cons_self) [] _
    rw [List.intercalate_cons_cons, List.append_assoc, splitString_some (List.cons_ne_nil _ _) hcut,
      ih fun p hp => h p (List.mem_cons_of_mem part hp)]

/-- A parameter is cut at its equals sign. -/
theorem split_text {p : QueryParam} (h : HttpRequest.equalsSign ∉ p.key) :
    (HttpRequest.equalsSign ∈ p.text ↔ p.isPair) ∧
      (p.isPair → (p.text.takeWhile fun c => c ≠ HttpRequest.equalsSign,
        (p.text.dropWhile fun c => c ≠ HttpRequest.equalsSign).tail) = (p.key, p.value)) := by
  cases p with
  | bare key => exact ⟨iff_of_false h Bool.false_ne_true, by rintro ⟨⟩⟩
  | pair key value =>
    have hkey : ∀ c ∈ key, decide (c ≠ HttpRequest.equalsSign) = true := fun c hc =>
      decide_eq_true fun heq => h (heq ▸ hc)
    obtain ⟨htake, hdrop⟩ := span_append (t := HttpRequest.equalsSign :: value) hkey
      fun c hc => by cases hc; rfl
    refine ⟨iff_of_true (List.mem_append_right _ List.mem_cons_self) rfl, fun _ => ?_⟩
    rw [QueryParam.text, htake, hdrop]
    rfl

/-- The parameters with a value are what the split texts with an equals sign are. -/
theorem takeWhile_text {params : List QueryParam}
    (h : ∀ p ∈ params, HttpRequest.equalsSign ∉ p.key) :
    ((params.map QueryParam.text).takeWhile fun param => HttpRequest.equalsSign ∈ param) =
      (params.takeWhile (·.isPair)).map QueryParam.text := by
  induction params with
  | nil => rfl
  | cons p params ih =>
    have hp := (split_text (h p List.mem_cons_self)).1
    rw [List.map_cons, List.takeWhile_cons, List.takeWhile_cons]
    by_cases hpair : p.isPair = true
    · rw [if_pos (decide_eq_true (hp.mpr hpair)), if_pos hpair, List.map_cons,
        ih fun q hq => h q (List.mem_cons_of_mem p hq)]
    · rw [if_neg (fun heq => hpair (hp.mp (of_decide_eq_true heq))), if_neg hpair]
      rfl

/-- **The query string is read up to its first parameter without a value.** -/
theorem deserializeQueryParams_query (request : ParamRequest) :
    HttpRequest.deserializeQueryParams request.query =
      ((request.params.takeWhile (·.isPair)).map fun p => (p.key, p.value)).foldl insertParam
        fun _ => none := by
  have hsplit : (splitString [HttpRequest.ampersand] request.query).takeWhile
      (fun param => HttpRequest.equalsSign ∈ param) =
        (request.params.takeWhile (·.isPair)).map QueryParam.text := by
    rw [query]
    cases hparams : request.params with
    | nil =>
      have hnil : (splitString [HttpRequest.ampersand] []).takeWhile
          (fun param => HttpRequest.equalsSign ∈ param) = [] := by decide
      exact hnil
    | cons p ps =>
      have hsep : ∀ text ∈ p.text :: ps.map QueryParam.text, HttpRequest.ampersand ∉ text := by
        rw [← List.map_cons, ← hparams]
        intro text htext hmem
        obtain ⟨q, hq, rfl⟩ := List.mem_map.mp htext
        exact (request.param_char q hq _ hmem).2.2.2 rfl
      rw [List.map_cons, splitString_intercalate hsep, ← List.map_cons, ← hparams,
        takeWhile_text request.key_char]
  have hpairs : ∀ p ∈ request.params.takeWhile (·.isPair),
      (p.text.takeWhile fun c => c ≠ HttpRequest.equalsSign,
        (p.text.dropWhile fun c => c ≠ HttpRequest.equalsSign).tail) = (p.key, p.value) :=
    fun p hp => (split_text (request.key_char p ((List.takeWhile_prefix _).subset hp))).2
      (List.mem_takeWhile_imp hp)
  rw [HttpRequest.deserializeQueryParams, hsplit, List.map_map]
  exact congrArg (List.foldl insertParam _) (List.map_congr_left hpairs)

/-- A parameter that is read. -/
theorem queryParams_mem {p : QueryParam} (h : p ∈ request.params.takeWhile (·.isPair)) :
    HttpRequest.deserializeQueryParams request.query p.key = some p.value := by
  have hsub : ((request.params.takeWhile (·.isPair)).map fun p => (p.key, p.value)).map (·.1) =
      (request.params.takeWhile (·.isPair)).map (·.key) := List.map_map
  have hnodup : (((request.params.takeWhile (·.isPair)).map fun p => (p.key, p.value)).map
      (·.1)).Nodup := by
    rw [hsub]
    exact request.keys.sublist ((List.takeWhile_prefix _).sublist.map _)
  rw [deserializeQueryParams_query]
  exact foldl_insertParam_of_nodup hnodup (List.mem_map_of_mem h)

/-- A parameter that is not read. -/
theorem queryParams_notMem {p : QueryParam} (hp : p ∈ request.params)
    (h : p ∉ request.params.takeWhile (·.isPair)) :
    HttpRequest.deserializeQueryParams request.query p.key = none := by
  rw [deserializeQueryParams_query]
  refine foldl_insertParam_of_notMem fun hmem => h ?_
  rw [List.map_map] at hmem
  obtain ⟨q, hq, hkey⟩ := List.mem_map.mp hmem
  have heq := List.inj_on_of_nodup_map request.keys ((List.takeWhile_prefix _).subset hq) hp hkey
  exact heq ▸ hq

end ParamRequest

/-! ## The header -/

/-- A header line is read unless its value is split again. -/
theorem headerPair_headerText {header : List UInt8 × List UInt8} (hname : colon ∉ header.1) :
    HttpRequest.headerPair (headerText header) =
      if cut [colon, space] header.2 = none then some header else none := by
  split
  · next hcut => exact (headerPair_eq_some_iff hname).mpr ⟨rfl, hcut⟩
  · next hcut =>
    obtain ⟨parts, hparts⟩ := Option.ne_none_iff_exists'.mp hcut
    have hline : cut [colon, space] (headerText header) = some (header.1, header.2) :=
      cut_of_notMem_mark hname [space] header.2
    obtain ⟨piece, pieces, hpieces⟩ :=
      List.exists_cons_of_ne_nil (splitString_ne_nil [colon, space] parts.2)
    rw [HttpRequest.headerPair, splitString_some (List.cons_ne_nil _ _) hline,
      splitString_some (List.cons_ne_nil _ _) hparts, hpieces]

theorem filterMap_headerText {headers : List (List UInt8 × List UInt8)}
    (h : ∀ header ∈ headers, colon ∉ header.1) :
    (headers.map headerText).filterMap HttpRequest.headerPair =
      headers.filter fun header => cut [colon, space] header.2 = none := by
  induction headers with
  | nil => rfl
  | cons header headers ih =>
    have hpair := headerPair_headerText (h header List.mem_cons_self)
    rw [List.map_cons, List.filterMap_cons, hpair, List.filter_cons,
      ih fun other hother => h other (List.mem_cons_of_mem header hother)]
    by_cases hcut : cut [colon, space] header.2 = none
    · rw [if_pos hcut, if_pos (decide_eq_true hcut)]
    · rw [if_neg hcut, if_neg fun heq => hcut (of_decide_eq_true heq)]

namespace ParamRequest

variable (request : ParamRequest)

theorem target_char : ∀ c ∈ request.target, c ≠ space ∧ c ≠ cr ∧ c ≠ lf := by
  have hquery : ∀ c ∈ request.query, c ≠ space ∧ c ≠ cr ∧ c ≠ lf := by
    intro c hc
    rcases mem_intercalate hc with hsep | ⟨text, htext, hmem⟩
    · rw [List.mem_singleton.mp hsep]
      decide
    · obtain ⟨p, hp, rfl⟩ := List.mem_map.mp htext
      have hchar := request.param_char p hp c hmem
      exact ⟨hchar.1, hchar.2.1, hchar.2.2.1⟩
  intro c hc
  rcases List.mem_append.mp hc with hpath | hrest
  · exact ⟨(request.path_char c hpath).1, (request.path_char c hpath).2.1,
      (request.path_char c hpath).2.2.1⟩
  · split at hrest
    · cases hrest
    · rcases List.mem_cons.mp hrest with rfl | hmem
      · decide
      · exact hquery c hmem

theorem requestLine_char : ∀ c ∈ request.requestLine, c ≠ cr ∧ c ≠ lf := by
  intro c hc
  simp only [requestLine, List.mem_append, List.mem_cons] at hc
  rcases hc with hword | rfl | htarget | rfl | hversion
  · exact ⟨(WireRequest.word_char _ c hword).2.1, (WireRequest.word_char _ c hword).2.2.1⟩
  · decide
  · exact (request.target_char c htarget).2
  · decide
  · exact request.version_char c hversion

theorem requestLine_oneLine : OneLine request.requestLine :=
  OneLine.of_notMem fun hmem => (request.requestLine_char cr hmem).1 rfl

theorem lines_oneLine : ∀ line ∈ request.headers.map headerText, line ≠ [] ∧ OneLine line := by
  intro line hline
  obtain ⟨header, hheader, rfl⟩ := List.mem_map.mp hline
  refine ⟨fun hnil => ?_, request.header_line header hheader⟩
  exact List.cons_ne_nil _ _ (List.append_eq_nil_iff.mp hnil).2

/-- What stands behind the request line begins with its end. -/
theorem bytes_eq : ∃ u, request.bytes = request.requestLine ++ (crlf ++ u) :=
  joinLines_headEnd _ _ _

variable {request : ParamRequest}

/-! ## The request that is made -/

theorem deserializeUrl_bytes (request : ParamRequest) :
    HttpRequest.deserializeUrl request.bytes = request.target := by
  obtain ⟨u, hbytes⟩ := request.bytes_eq
  have hword : ∀ c ∈ request.method.word, decide (c ≠ space) = true := fun c hc =>
    decide_eq_true (WireRequest.word_char _ c hc).1
  have htarget : ∀ c ∈ request.target, decide (c ≠ space) = true := fun c hc =>
    decide_eq_true (request.target_char c hc).1
  have hdrop := (span_append (t := space :: (request.target ++ space :: (request.version ++
    (crlf ++ u)))) hword fun c hc => by cases hc; rfl).2
  have htake := (span_append (t := space :: (request.version ++ (crlf ++ u))) htarget
    fun c hc => by cases hc; rfl).1
  have hspaces : request.bytes = request.method.word ++ space :: (request.target ++ space ::
      (request.version ++ (crlf ++ u))) := by
    rw [hbytes, requestLine]
    simp only [List.append_assoc, List.cons_append]
  rw [HttpRequest.deserializeUrl, hspaces, hdrop, List.tail_cons,
    if_pos (List.mem_append_right _ List.mem_cons_self), htake]

/-- The query string is found, and empty without parameters. -/
theorem deserializeQueryString_target (request : ParamRequest) :
    HttpRequest.deserializeQueryString request.target = (request.path, request.query) := by
  have hpath : ∀ c ∈ request.path, decide (c ≠ HttpRequest.questionMark) = true := fun c hc =>
    decide_eq_true (request.path_char c hc).2.2.2
  rw [HttpRequest.deserializeQueryString, target]
  split
  · next hparams =>
    obtain ⟨htake, hdrop⟩ := span_append (t := []) hpath fun c hc => by cases hc
    rw [htake, hdrop, query, hparams]
    rfl
  · obtain ⟨htake, hdrop⟩ := span_append (t := HttpRequest.questionMark :: request.query) hpath
      fun c hc => by cases hc; rfl
    rw [htake, hdrop]
    rfl

theorem startOfHeader_bytes (request : ParamRequest) :
    HttpRequest.startOfHeader request.bytes = request.requestLine.length + 2 := by
  obtain ⟨u, hbytes⟩ := request.bytes_eq
  have hline : ∀ c ∈ request.requestLine, decide (c ≠ cr ∧ c ≠ lf) = true := fun c hc =>
    decide_eq_true (request.requestLine_char c hc)
  have htake := (span_append hline (t := crlf ++ u) fun c hc => by cases hc; rfl).1
  have hcr : cr ∈ request.requestLine ++ (crlf ++ u) :=
    List.mem_append_right _ List.mem_cons_self
  rw [HttpRequest.startOfHeader, hbytes, if_pos (.inl hcr), htake]

theorem find_headEnd (request : ParamRequest) :
    find headEnd request.bytes = some request.block.length := by
  have hne : headEnd ≠ [] := List.cons_ne_nil _ _
  rw [find, if_neg hne, bytes, block,
    cut_headEnd_lines request.requestLine_oneLine request.lines_oneLine]
  rfl

/-- **The header lines are read**, those whose value is split again left out. -/
theorem deserializeHeaderParams_bytes (h : request.headers ≠ []) :
    HttpRequest.deserializeHeaderParams request.bytes =
      .ok ((request.headers.filter fun header => cut [colon, space] header.2 = none).foldl
        insertParam fun _ => none) := by
  obtain ⟨header, headers, hheaders⟩ := List.exists_cons_of_ne_nil h
  have hblock : request.block =
      request.requestLine ++ crlf ++ joinLines (headerText header) (headers.map headerText) := by
    rw [block, hheaders, List.map_cons, joinLines_cons, List.append_assoc]
  have hlength : request.requestLine.length + 2 = (request.requestLine ++ crlf).length := by
    rw [List.length_append]
    rfl
  have hle : request.requestLine.length + 2 ≤ request.block.length := by
    rw [hblock, hlength, @List.length_append _ (request.requestLine ++ crlf)]
    exact Nat.le_add_right _ _
  have hlong : ¬ request.bytes.length < request.requestLine.length + 2 := by
    rw [bytes, List.length_append]
    omega
  have hregion : (request.bytes.take request.block.length).drop (request.requestLine.length + 2) =
      joinLines (headerText header) (headers.map headerText) := by
    rw [bytes, List.take_left, hblock, hlength, List.drop_left]
  have hlines := request.lines_oneLine
  rw [hheaders, List.map_cons] at hlines
  have hsplit := splitString_lines (hlines _ List.mem_cons_self).2
    fun line hline => (hlines line (List.mem_cons_of_mem _ hline)).2
  rw [HttpRequest.deserializeHeaderParams, startOfHeader_bytes, find_headEnd, substr, if_neg hlong,
    if_pos hle, hregion, Call.andThen, hsplit, ← List.map_cons, ← hheaders,
    filterMap_headerText request.name_char]

/-- No request of this form is refused. -/
theorem deserializeHeaderParams_ok (request : ParamRequest) :
    ∃ params, HttpRequest.deserializeHeaderParams request.bytes = .ok params := by
  have hlong : ¬ request.bytes.length < request.requestLine.length + 2 := by
    obtain ⟨u, hbytes⟩ := request.bytes_eq
    have hcrlf : crlf.length = 2 := rfl
    rw [hbytes, List.length_append, List.length_append]
    omega
  rw [HttpRequest.deserializeHeaderParams, startOfHeader_bytes, find_headEnd, substr, if_neg hlong]
  exact ⟨_, rfl⟩

theorem query_of_made {made : HttpRequest}
    (h : HttpRequest.deserialize request.method request.bytes = .ok made) :
    made.queryParams = HttpRequest.deserializeQueryParams request.query := by
  obtain ⟨params, hparams⟩ := request.deserializeHeaderParams_ok
  rw [HttpRequest.deserialize, deserializeUrl_bytes, deserializeQueryString_target, hparams] at h
  cases h
  rfl

theorem header_of_made {made : HttpRequest}
    (h : HttpRequest.deserialize request.method request.bytes = .ok made) :
    HttpRequest.deserializeHeaderParams request.bytes = .ok made.headerParams := by
  obtain ⟨params, hparams⟩ := request.deserializeHeaderParams_ok
  rw [HttpRequest.deserialize, hparams] at h
  cases h
  exact hparams

/-- A parameter with a value is read unless one without stands in front of it. -/
theorem mem_takeWhile_or {p : QueryParam} (hp : p ∈ request.params) (hpair : p.isPair) :
    p ∈ request.params.takeWhile (·.isPair) ∨
      ∃ front key back, request.params = front ++ .bare key :: back ∧ p ∈ back := by
  have hsplit := @List.takeWhile_append_dropWhile _ (·.isPair) request.params
  rw [← hsplit] at hp
  refine (List.mem_append.mp hp).imp_right fun hdrop => ?_
  cases hrest : request.params.dropWhile (·.isPair) with
  | nil => exact absurd (hrest ▸ hdrop) List.not_mem_nil
  | cons q back =>
    have hq : ¬ q.isPair = true := by
      have hhead := List.head?_dropWhile_not (·.isPair) request.params
      rw [hrest] at hhead
      exact Bool.eq_false_iff.mp hhead
    rw [hrest] at hdrop hsplit
    cases q with
    | pair key value => exact absurd rfl hq
    | bare key =>
      refine ⟨_, key, back, hsplit.symm, (List.mem_cons.mp hdrop).resolve_left fun heq => ?_⟩
      rw [heq] at hpair
      cases hpair

theorem notMem_takeWhile {front back : List QueryParam} {key : List UInt8} {p : QueryParam}
    (hparams : request.params = front ++ .bare key :: back) (hp : p ∈ back) :
    p ∉ request.params.takeWhile (·.isPair) := by
  intro hmem
  have hnodup : (front ++ .bare key :: back).Nodup := hparams ▸ request.keys.of_map _
  have hfront : p ∈ front := by
    have hprefix : request.params.takeWhile (·.isPair) <+: front := by
      rw [hparams, List.takeWhile_append]
      split
      · rw [List.takeWhile_cons_of_neg Bool.false_ne_true, List.append_nil]
      · exact List.takeWhile_prefix _
    exact hprefix.subset hmem
  exact (List.nodup_append.mp hnodup).2.2 p hfront p (List.mem_cons_of_mem _ hp) rfl

theorem getQueryParam_iff {made : HttpRequest}
    (h : HttpRequest.deserialize request.method request.bytes = .ok made) {key value : List UInt8}
    (hp : .pair key value ∈ request.params) :
    made.getQueryParam key = value ↔
      ((∃ front key' back, request.params = front ++ .bare key' :: back ∧ .pair key value ∈ back) →
        value = HttpRequest.paramNotFound) := by
  rw [HttpRequest.getQueryParam, query_of_made h]
  by_cases hbehind : ∃ front key' back,
      request.params = front ++ .bare key' :: back ∧ .pair key value ∈ back
  · obtain ⟨front, key', back, hparams, hback⟩ := hbehind
    have hnone := queryParams_notMem hp (notMem_takeWhile hparams hback)
    rw [show key = (QueryParam.pair key value).key from rfl, hnone]
    exact ⟨fun heq _ => heq.symm, fun himp => (himp ⟨front, key', back, hparams, hback⟩).symm⟩
  · have hsome := queryParams_mem ((mem_takeWhile_or hp rfl).resolve_right hbehind)
    rw [show key = (QueryParam.pair key value).key from rfl, hsome]
    exact iff_of_true rfl fun h => absurd h hbehind

theorem getHeaderParam_iff {made : HttpRequest}
    (h : HttpRequest.deserialize request.method request.bytes = .ok made)
    {header : List UInt8 × List UInt8} (hheader : header ∈ request.headers) :
    made.getHeaderParam header.1 = header.2 ↔ cut [colon, space] header.2 = none := by
  have hheaders := header_of_made h
  rw [deserializeHeaderParams_bytes (List.ne_nil_of_mem hheader)] at hheaders
  rw [HttpRequest.getHeaderParam, ← Call.ok.inj hheaders]
  by_cases hcut : cut [colon, space] header.2 = none
  · have hmem : header ∈ request.headers.filter fun header => cut [colon, space] header.2 = none :=
      List.mem_filter.mpr ⟨hheader, decide_eq_true hcut⟩
    have hnodup : ((request.headers.filter fun header =>
        cut [colon, space] header.2 = none).map (·.1)).Nodup :=
      request.names.sublist (List.filter_sublist.map _)
    rw [foldl_insertParam_of_nodup hnodup hmem]
    exact iff_of_true rfl hcut
  · have hnotMem : header.1 ∉ (request.headers.filter fun header =>
        cut [colon, space] header.2 = none).map (·.1) := by
      intro hmem
      obtain ⟨other, hother, hname⟩ := List.mem_map.mp hmem
      have heq := List.inj_on_of_nodup_map request.names (List.mem_filter.mp hother).1 hheader hname
      exact hcut (heq ▸ of_decide_eq_true (List.mem_filter.mp hother).2)
    rw [foldl_insertParam_of_notMem hnotMem]
    refine iff_of_false (fun heq => hcut ?_) hcut
    have hplain : cut [colon, space] HttpRequest.paramNotFound = none := by decide
    rw [← heq]
    exact hplain

/-- **All parameters of a request are found** if and only if none with a value stands behind one
without, and no header value has a colon and a blank in it. -/
theorem retrieved_iff (request : ParamRequest) :
    (∃ made, HttpRequest.deserialize request.method request.bytes = .ok made ∧
      request.Retrieved made) ↔ request.Readable := by
  constructor
  · rintro ⟨made, hmade, hretrieved⟩
    refine ⟨fun front key back hparams key' value hback => ?_, fun header hheader => ?_⟩
    · have hp : .pair key' value ∈ request.params := by
        rw [hparams]
        exact List.mem_append_right front (List.mem_cons_of_mem _ hback)
      exact (getQueryParam_iff hmade hp).mp (hretrieved.query key' value hp)
        ⟨front, key, back, hparams, hback⟩
    · exact (getHeaderParam_iff hmade hheader).mp (hretrieved.header header hheader)
  · intro hreadable
    obtain ⟨params, hparams⟩ := request.deserializeHeaderParams_ok
    obtain ⟨made, hmade⟩ :
        ∃ made, HttpRequest.deserialize request.method request.bytes = .ok made := by
      rw [HttpRequest.deserialize, hparams]
      exact ⟨_, rfl⟩
    refine ⟨made, hmade, fun key value hp => ?_, fun header hheader => ?_⟩
    · refine (getQueryParam_iff hmade hp).mpr ?_
      rintro ⟨front, key', back, hsplit, hback⟩
      exact hreadable.query front key' back hsplit key value hback
    · exact (getHeaderParam_iff hmade hheader).mpr (hreadable.header header hheader)

/-- `GET /?a&b=1`, with a header line `X: y: z`. -/
def unread : ParamRequest where
  method := .get
  path := text "/"
  params := [.bare (text "a"), .pair (text "b") (text "1")]
  version := text "HTTP/1.1"
  headers := [(text "X", text "y: z")]
  body := []
  path_char := forall_of_all (by decide)
  param_char := List.forall_mem_cons.mpr ⟨forall_of_all (by decide),
    List.forall_mem_singleton.mpr (forall_of_all (by decide))⟩
  key_char := by decide
  keys := by decide
  version_char := forall_of_all (by decide)
  name_char := by decide
  header_line := by
    intro header hheader
    rw [List.mem_singleton.mp hheader]
    exact OneLine.of_notMem (by decide)
  names := by decide

/-- Neither the parameter behind the bare one nor the header is found. -/
theorem unread_not_retrieved :
    ¬ ∃ made, HttpRequest.deserialize unread.method unread.bytes = .ok made ∧
      unread.Retrieved made := by
  rintro ⟨made, hmade, hretrieved⟩
  have hcut : cut [colon, space] (text "y: z") ≠ none := by decide
  have hheader := hretrieved.header _ List.mem_cons_self
  exact hcut ((getHeaderParam_iff hmade List.mem_cons_self).mp hheader)

end ParamRequest

end TradingEngine
