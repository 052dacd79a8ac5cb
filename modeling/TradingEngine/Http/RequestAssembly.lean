import TradingEngine.Http.ServerRequest
import TradingEngine.Http.WireFormat

/-!
# Http/RequestAssembly — a request that comes in several calls

The read handler makes a request of all bytes that have come, and `is_valid_format` says whether
they are enough.  `served_iff` says when this serves a well-formed request once, whole, and when its
last byte has come: each earlier call must already find a request with a body that is too short.
-/

namespace TradingEngine

open Ascii

/-! ## Maps with distinct names -/

section Distinct

variable {α β : Type*} [DecidableEq β] {f : α → β} {l : List α} {a : α}

/-- The one element with this name. -/
theorem find?_of_nodup (hnodup : (l.map f).Nodup) (h : a ∈ l) :
    l.find? (fun b => f b = f a) = some a := by
  cases hfind : l.find? fun b => f b = f a with
  | none => exact absurd (decide_eq_true rfl) (List.find?_eq_none.mp hfind a h)
  | some found =>
    have hname : f found = f a := by simpa using List.find?_some hfind
    rw [List.inj_on_of_nodup_map hnodup (List.mem_of_find?_eq_some hfind) h hname]

end Distinct

/-! ## Splitting -/

section Split

variable {del s piece rest : List UInt8}

theorem cut_length (hdel : del ≠ []) (h : cut del s = some (piece, rest)) :
    rest.length < s.length := by
  have hpos := List.length_pos_iff.mpr hdel
  rw [eq_of_cut h, List.length_append, List.length_append]
  omega

/-- Any fuel above the length gives the same pieces. -/
theorem splitLoop_congr (hdel : del ≠ []) {fuel fuel' : ℕ} (h : s.length ≤ fuel)
    (h' : s.length ≤ fuel') : splitLoop del fuel s = splitLoop del fuel' s := by
  induction fuel generalizing fuel' s with
  | zero =>
    have hs : s = [] := List.length_eq_zero_iff.mp (Nat.le_zero.mp h)
    subst hs
    cases fuel' <;> rfl
  | succ fuel ih =>
    cases fuel' with
    | zero =>
      have hs : s = [] := List.length_eq_zero_iff.mp (Nat.le_zero.mp h')
      subst hs
      rfl
    | succ fuel' =>
      rw [splitLoop, splitLoop]
      cases hcut : cut del s with
      | none => rfl
      | some parts =>
        have hlt := cut_length hdel hcut
        exact congrArg (parts.1 :: ·) (ih (by omega) (by omega))

theorem splitString_some (hdel : del ≠ []) (h : cut del s = some (piece, rest)) :
    splitString del s = piece :: splitString del rest := by
  have hlt := cut_length hdel h
  obtain ⟨n, hn⟩ := Nat.exists_eq_succ_of_ne_zero (Nat.ne_zero_of_lt hlt)
  rw [splitString, hn, splitLoop, h]
  exact congrArg (piece :: ·) (splitLoop_congr hdel (by omega) le_rfl)

theorem splitString_none (h : cut del s = none) : splitString del s = [s] := by
  rw [splitString]
  cases s.length with
  | zero => rfl
  | succ n => rw [splitLoop, h]

theorem splitString_ne_nil (del s : List UInt8) : splitString del s ≠ [] := by
  rw [splitString]
  cases s.length with
  | zero => exact List.cons_ne_nil _ _
  | succ n =>
    rw [splitLoop]
    split <;> exact List.cons_ne_nil _ _

/-- **What is joined is split again**, if every part is cut off where it ends. -/
theorem splitString_of_cut {first : List UInt8} {lines : List (List UInt8)}
    (hfirst : cut crlf first = none ∧ ∀ t, cut crlf (first ++ (crlf ++ t)) = some (first, t))
    (h : ∀ line ∈ lines, cut crlf line = none ∧
      ∀ t, cut crlf (line ++ (crlf ++ t)) = some (line, t)) :
    splitString crlf (joinLines first lines) = first :: lines := by
  induction lines generalizing first with
  | nil =>
    rw [joinLines, List.flatMap_nil, List.append_nil]
    exact splitString_none hfirst.1
  | cons line lines ih =>
    have hdel : crlf ≠ [] := List.cons_ne_nil _ _
    rw [joinLines_cons, splitString_some hdel (hfirst.2 _),
      ih (h line List.mem_cons_self) fun l hl => h l (List.mem_cons_of_mem line hl)]

/-- **Lines are split at their ends.** -/
theorem splitString_joinLines {first : List UInt8} {lines : List (List UInt8)} (hfirst : cr ∉ first)
    (h : ∀ line ∈ lines, cr ∉ line) :
    splitString crlf (joinLines first lines) = first :: lines := by
  have hcut : ∀ line : List UInt8, cr ∉ line →
      cut crlf line = none ∧ ∀ t, cut crlf (line ++ (crlf ++ t)) = some (line, t) :=
    fun _ hline => ⟨cut_eq_none_of_notMem hline [lf], cut_of_notMem_mark hline [lf]⟩
  exact splitString_of_cut (hcut first hfirst) fun line hline => hcut line (h line hline)

/-- **A header line that is read**: a name, a colon and a space, and a value without these two. -/
theorem headerPair_eq_some_iff {line name value : List UInt8} (hname : colon ∉ name) :
    HttpRequest.headerPair line = some (name, value) ↔
      line = name ++ colon :: space :: value ∧ cut [colon, space] value = none := by
  constructor
  · intro h
    rw [HttpRequest.headerPair] at h
    split at h
    · next k v hsplit =>
      cases h
      cases hcut : cut [colon, space] line with
      | none =>
        rw [splitString_none hcut] at hsplit
        exact absurd hsplit (by simp)
      | some parts =>
        rw [splitString_some (List.cons_ne_nil _ _) hcut] at hsplit
        obtain ⟨hpiece, hrest⟩ := List.cons.inj hsplit
        cases hcut' : cut [colon, space] parts.2 with
        | none =>
          rw [splitString_none hcut'] at hrest
          cases hrest
          refine ⟨?_, hcut'⟩
          rw [eq_of_cut hcut, hpiece, List.append_assoc]
          rfl
        | some parts' =>
          rw [splitString_some (List.cons_ne_nil _ _) hcut'] at hrest
          exact absurd (List.cons.inj hrest).2 (splitString_ne_nil _ _)
    · cases h
  · rintro ⟨rfl, hcut⟩
    have hline : cut [colon, space] (name ++ colon :: space :: value) = some (name, value) :=
      cut_of_notMem_mark hname [space] value
    rw [HttpRequest.headerPair, splitString_some (List.cons_ne_nil _ _) hline,
      splitString_none hcut]

/-- A piece is a part of the text. -/
theorem infix_of_mem_splitLoop {fuel : ℕ} (h : piece ∈ splitLoop del fuel s) : piece <:+: s := by
  induction fuel generalizing s with
  | zero =>
    rw [splitLoop, List.mem_singleton] at h
    exact h ▸ List.infix_rfl
  | succ fuel ih =>
    rw [splitLoop] at h
    cases hcut : cut del s with
    | none =>
      rw [hcut, List.mem_singleton] at h
      exact h ▸ List.infix_rfl
    | some parts =>
      rw [hcut] at h
      rw [eq_of_cut hcut, List.append_assoc]
      rcases List.mem_cons.mp h with rfl | hrest
      · exact (List.prefix_append _ _).isInfix
      · exact (ih hrest).trans
          ((List.suffix_append _ _).trans (List.suffix_append _ _)).isInfix

theorem infix_of_mem_splitString (h : piece ∈ splitString del s) : piece <:+: s :=
  infix_of_mem_splitLoop h

theorem prefix_of_headerPair {line name value : List UInt8}
    (h : HttpRequest.headerPair line = some (name, value)) : name ++ [colon, space] <+: line := by
  rw [HttpRequest.headerPair] at h
  split at h
  · next k v hsplit =>
    cases h
    cases hcut : cut [colon, space] line with
    | none =>
      rw [splitString_none hcut] at hsplit
      exact absurd hsplit (by simp)
    | some parts =>
      rw [splitString_some (List.cons_ne_nil _ _) hcut] at hsplit
      rw [eq_of_cut hcut, (List.cons.inj hsplit).1]
      exact List.prefix_append _ _
  · cases h

end Split

/-! ## The header map -/

section Params

variable {pairs : List (List UInt8 × List UInt8)} {name value : List UInt8}

/-- **The first pair of a name** is what the map holds. -/
theorem foldl_insertParam (params : List UInt8 → Option (List UInt8)) (name : List UInt8) :
    pairs.foldl insertParam params name =
      (params name).or ((pairs.find? fun pair => pair.1 = name).map (·.2)) := by
  induction pairs generalizing params with
  | nil => simp
  | cons pair pairs ih =>
    rw [List.foldl_cons, ih, List.find?_cons]
    by_cases hname : pair.1 = name
    · subst hname
      cases hparam : params pair.1 with
      | none => simp [insertParam, hparam]
      | some value => simp [insertParam, hparam]
    · have hkeep : insertParam params pair name = params name := by
        rw [insertParam]
        split
        · rfl
        · exact Function.update_of_ne (Ne.symm hname) _ _
      simp [hkeep, hname]

end Params

/-! ## Well-formed requests -/

/-- A `GET` without a body, or a `POST` with a `Content-Length` and a body. -/
structure WireRequest where
  isPost : Bool
  path : List UInt8
  query : Option (List UInt8)
  version : List UInt8
  fields : List HeaderField
  body : List UInt8
  path_char : ∀ c ∈ path, c ≠ space ∧ c ≠ cr ∧ c ≠ lf ∧ c ≠ 0 ∧ c ≠ HttpRequest.questionMark
  query_char : ∀ text ∈ query, ∀ c ∈ text, c ≠ space ∧ c ≠ cr ∧ c ≠ lf ∧ c ≠ 0
  version_char : ∀ c ∈ version, c ≠ cr ∧ c ≠ lf ∧ c ≠ 0
  value_char : ∀ field ∈ fields, ∀ c ∈ field.value, c ≠ 0
  names : (fields.map (·.name)).Nodup
  framed :
    if isPost then
      (∃ field ∈ fields, field.isLength = true) ∧
        ∀ field ∈ fields, field.isLength = true →
          field.value ≠ [] ∧ (∀ c ∈ field.value, isDigit c = true) ∧
            ofDecimal field.value = body.length
    else body = []

namespace WireRequest

variable (request : WireRequest)

def method : RequestMethod := if request.isPost then .post else .get

/-- The target: the path, and the query string behind a question mark. -/
def target : List UInt8 := request.path ++ request.query.elim [] (HttpRequest.questionMark :: ·)

def requestLine : List UInt8 :=
  request.method.word ++ space :: (request.target ++ space :: request.version)

/-- The lines up to the empty one. -/
def block : List UInt8 := joinLines request.requestLine (request.fields.map HeaderField.line)

def head : List UInt8 := request.block ++ headEnd

def bytes : List UInt8 := request.head ++ request.body

/-- The value of the field of a name. -/
def headerValue (name : List UInt8) : Option (List UInt8) :=
  (request.fields.find? fun field => field.name = name).map (·.value)

/-- The request was executed as it was sent: URL, query string, header map and body. -/
structure ExecutedAs (clientIp : List UInt8) (executed : HttpRequest) : Prop where
  method : executed.method = request.method
  clientIp : executed.clientIp = clientIp
  url : executed.url = request.path
  queryString : executed.queryString = request.query.getD []
  headers : ∀ name, executed.headerParams name = request.headerValue name
  body : executed.body = request.body

end WireRequest

/-- A header line that the server reads: one space behind the colon, none at the end, and no colon
with a space behind it in the value. -/
def HeaderField.PlainLine (field : HeaderField) : Prop :=
  field.line = field.name ++ colon :: space :: field.value ∧ cut [colon, space] field.value = none

instance (field : HeaderField) : Decidable field.PlainLine := inferInstanceAs (Decidable (_ ∧ _))

namespace WireRequest

variable {request : WireRequest}

/-! ## The parts of a request -/

theorem word_char (method : RequestMethod) :
    ∀ c ∈ method.word, c ≠ space ∧ c ≠ cr ∧ c ≠ lf ∧ c ≠ 0 := by
  cases method <;> exact forall_of_all (by decide)

theorem target_char : ∀ c ∈ request.target, c ≠ space ∧ c ≠ cr ∧ c ≠ lf ∧ c ≠ 0 := by
  intro c hc
  rcases List.mem_append.mp hc with hpath | hquery
  · obtain ⟨hspace, hcr, hlf, hzero, -⟩ := request.path_char c hpath
    exact ⟨hspace, hcr, hlf, hzero⟩
  · cases hsome : request.query with
    | none =>
      rw [hsome] at hquery
      exact absurd hquery List.not_mem_nil
    | some text =>
      rw [hsome] at hquery
      rcases List.mem_cons.mp hquery with rfl | hmem
      · decide
      · exact request.query_char text hsome c hmem

theorem requestLine_char : ∀ c ∈ request.requestLine, c ≠ cr ∧ c ≠ lf ∧ c ≠ 0 := by
  intro c hc
  rw [requestLine, List.mem_append, List.mem_cons, List.mem_append, List.mem_cons] at hc
  rcases hc with hword | rfl | htarget | rfl | hversion
  · exact (word_char _ c hword).2
  · decide
  · exact (target_char c htarget).2
  · decide
  · exact request.version_char c hversion

theorem requestLine_lineText : LineText request.requestLine :=
  .of_forall (List.append_ne_nil_of_right_ne_nil _ (List.cons_ne_nil _ _)) fun c hc =>
    ⟨(requestLine_char c hc).1, (requestLine_char c hc).2.1⟩

/-- The empty line is found behind the lines. -/
theorem cut_head (rest : List UInt8) :
    cut headEnd (request.head ++ rest) = some (request.block, rest) := by
  have hblock : cut headEnd (request.block ++ headEnd) = some (request.block, []) := by
    refine cut_headEnd requestLine_lineText.2.1 fun line hline => ?_
    obtain ⟨field, -, rfl⟩ := List.mem_map.mp hline
    exact ⟨(lineText_line field).1, (lineText_line field).2.1⟩
  exact cut_append hblock rest

theorem find_headEnd (rest : List UInt8) :
    find headEnd (request.head ++ rest) = some request.block.length := by
  have hne : headEnd ≠ [] := List.cons_ne_nil _ _
  rw [find, if_neg hne, cut_head]
  rfl

theorem bodyOf_head (rest : List UInt8) : HttpRequest.bodyOf (request.head ++ rest) = rest := by
  rw [HttpRequest.bodyOf, find_headEnd]
  dsimp only
  have hlength : request.block.length + 4 = request.head.length := by
    rw [head, List.length_append]
    rfl
  rw [hlength, List.drop_left]

/-- What stands behind the request line. -/
def afterLine (request : WireRequest) (rest : List UInt8) : List UInt8 :=
  (request.fields.map HeaderField.line).flatMap (crlf ++ ·) ++ headEnd ++ rest

theorem head_append (rest : List UInt8) :
    request.head ++ rest = request.requestLine ++ request.afterLine rest := by
  simp only [head, block, joinLines, afterLine, List.append_assoc]

theorem afterLine_head (rest : List UInt8) : (request.afterLine rest).head? = some cr := by
  rw [afterLine]
  cases request.fields <;> rfl

theorem deserializeUrl_head (rest : List UInt8) :
    HttpRequest.deserializeUrl (request.head ++ rest) = request.target := by
  have hword : ∀ c ∈ request.method.word, decide (c ≠ space) = true := fun c hc =>
    decide_eq_true (word_char _ c hc).1
  have htarget : ∀ c ∈ request.target, decide (c ≠ space) = true := fun c hc =>
    decide_eq_true (target_char c hc).1
  have hdrop := (span_append (t := space :: (request.target ++ space :: (request.version ++
    request.afterLine rest))) hword fun c hc => by cases hc; rfl).2
  have htake := (span_append (t := space :: (request.version ++ request.afterLine rest)) htarget
    fun c hc => by cases hc; rfl).1
  have hbytes : request.head ++ rest = request.method.word ++ space :: (request.target ++ space ::
      (request.version ++ request.afterLine rest)) := by
    rw [head_append, requestLine]
    simp only [List.append_assoc, List.cons_append]
  rw [HttpRequest.deserializeUrl, hbytes, hdrop, List.tail_cons,
    if_pos (List.mem_append_right _ List.mem_cons_self), htake]

theorem deserializeQueryString_target :
    HttpRequest.deserializeQueryString request.target = (request.path, request.query.getD []) := by
  have hpath : ∀ c ∈ request.path, decide (c ≠ HttpRequest.questionMark) = true := fun c hc =>
    decide_eq_true (request.path_char c hc).2.2.2.2
  rw [HttpRequest.deserializeQueryString, target]
  cases request.query with
  | none =>
    obtain ⟨htake, hdrop⟩ := span_append (t := []) hpath fun c hc => by cases hc
    rw [Option.elim_none, htake, hdrop]
    rfl
  | some text =>
    obtain ⟨htake, hdrop⟩ := span_append (t := HttpRequest.questionMark :: text) hpath
      fun c hc => by cases hc; rfl
    rw [Option.elim_some, htake, hdrop]
    rfl

theorem word_head (rest : List UInt8) :
    (request.head ++ rest).takeWhile (fun c => c ≠ space) = request.method.word := by
  have hword : ∀ c ∈ request.method.word, decide (c ≠ space) = true := fun c hc =>
    decide_eq_true (word_char _ c hc).1
  rw [head_append, requestLine, List.append_assoc]
  exact (span_append hword fun c hc => by cases hc; rfl).1

theorem ofWord_word (method : RequestMethod) : RequestMethod.ofWord method.word = some method := by
  cases method <;> decide

/-! ## The header map of a request -/

theorem startOfHeader_head (rest : List UInt8) :
    HttpRequest.startOfHeader (request.head ++ rest) = request.requestLine.length + 2 := by
  have hline : ∀ c ∈ request.requestLine, decide (c ≠ cr ∧ c ≠ lf) = true := fun c hc =>
    decide_eq_true ⟨(requestLine_char c hc).1, (requestLine_char c hc).2.1⟩
  have hhead := request.afterLine_head rest
  have htake := (span_append hline (t := request.afterLine rest) fun c hc => by
    rw [hhead] at hc
    cases hc
    rfl).1
  have hcr : cr ∈ request.requestLine ++ request.afterLine rest :=
    List.mem_append_right _ (List.mem_of_mem_head? hhead)
  rw [HttpRequest.startOfHeader, head_append, if_pos (.inl hcr), htake]

/-- The pairs of the header lines that are read. -/
def pairs (request : WireRequest) : List (List UInt8 × List UInt8) :=
  (request.fields.map HeaderField.line).filterMap HttpRequest.headerPair

theorem headerPair_nil : HttpRequest.headerPair [] = none := rfl

/-- **The header lines are read.** -/
theorem deserializeHeaderParams_head {rest : List UInt8} (h : request.fields ≠ [] ∨ rest = []) :
    HttpRequest.deserializeHeaderParams (request.head ++ rest) =
      .ok (request.pairs.foldl insertParam fun _ => none) := by
  have hlong : ¬ (request.head ++ rest).length < request.requestLine.length + 2 := by
    rw [head, block, joinLines]
    simp only [List.length_append]
    have hend : headEnd.length = 4 := rfl
    omega
  rw [HttpRequest.deserializeHeaderParams, startOfHeader_head, find_headEnd, substr, if_neg hlong]
  cases hfields : request.fields with
  | nil =>
    -- the empty line is found in front of the start, and the rest of the text is taken
    have hrest : rest = [] := h.resolve_left fun hne => hne hfields
    have hblock : request.block = request.requestLine := by
      rw [block, hfields]
      exact List.append_nil _
    have hdrop : (request.head ++ rest).drop (request.requestLine.length + 2) = crlf := by
      rw [head, hblock, hrest, List.append_nil, ← List.drop_drop, List.drop_left]
      rfl
    have hsplit : (splitString crlf crlf).filterMap HttpRequest.headerPair = [] := by decide
    have hpairs : request.pairs = [] := by
      rw [pairs, hfields]
      rfl
    rw [hblock, if_neg (by omega), hdrop, Call.andThen, hsplit, hpairs]
  | cons field fields =>
    have hblock : request.block =
        request.requestLine ++ crlf ++ joinLines field.line (fields.map HeaderField.line) := by
      rw [block, hfields, List.map_cons, joinLines_cons, List.append_assoc]
    have hle : request.requestLine.length + 2 ≤ request.block.length := by
      rw [hblock, List.length_append, List.length_append]
      exact Nat.le_add_right _ _
    have hregion : ((request.head ++ rest).take request.block.length).drop
        (request.requestLine.length + 2) =
        joinLines field.line (fields.map HeaderField.line) := by
      have hlength : request.requestLine.length + 2 = (request.requestLine ++ crlf).length := by
        rw [List.length_append]
        rfl
      rw [head, List.append_assoc, List.take_left, hblock, hlength, List.drop_left]
    have hcr : ∀ field : HeaderField, cr ∉ field.line := fun field => (lineText_line field).2.1
    have hlines : ∀ line ∈ fields.map HeaderField.line, cr ∉ line := by
      rintro line hline
      obtain ⟨f, -, rfl⟩ := List.mem_map.mp hline
      exact hcr f
    have hsplit := splitString_joinLines (hcr field) hlines
    have hpairs : request.pairs =
        (field.line :: fields.map HeaderField.line).filterMap HttpRequest.headerPair := by
      rw [pairs, hfields, List.map_cons]
    rw [if_pos hle, hregion, Call.andThen, hsplit, hpairs]

/-- A name is what stands in front of the first colon. -/
theorem eq_of_line {field : HeaderField} {name rest : List UInt8} (hname : colon ∉ name)
    (h : field.line = name ++ colon :: rest) : field.name = name := by
  have hfield : ∀ c ∈ field.name, decide (c ≠ colon) = true := fun c hc =>
    decide_eq_true (field.name_char c hc).1
  have hother : ∀ c ∈ name, decide (c ≠ colon) = true := fun c hc =>
    decide_eq_true fun heq => hname (heq ▸ hc)
  have htake := (span_append (t := colon :: (field.before ++ field.value ++ field.after)) hfield
    fun c hc => by cases hc; rfl).1
  have htake' := (span_append (t := colon :: rest) hother fun c hc => by cases hc; rfl).1
  rw [← HeaderField.line, h, htake'] at htake
  exact htake.symm

theorem colon_notMem_name (field : HeaderField) : colon ∉ field.name := fun hmem =>
  (field.name_char colon hmem).1 rfl

theorem headerValue_of_mem {field : HeaderField} (h : field ∈ request.fields) :
    request.headerValue field.name = some field.value := by
  rw [headerValue, find?_of_nodup request.names h]
  rfl

/-- **The header map is complete exactly when every header line is one the server reads.** -/
theorem headerParams_iff :
    (∀ name, request.pairs.foldl insertParam (fun _ => none) name = request.headerValue name) ↔
      ∀ field ∈ request.fields, field.PlainLine := by
  constructor
  · intro h field hfield
    have hvalue := (h field.name).trans (headerValue_of_mem hfield)
    rw [foldl_insertParam, Option.none_or, Option.map_eq_some_iff] at hvalue
    obtain ⟨pair, hfind, hpair⟩ := hvalue
    have hname : pair.1 = field.name := by simpa using List.find?_some hfind
    obtain ⟨line, hline, hread⟩ := List.mem_filterMap.mp (List.mem_of_find?_eq_some hfind)
    obtain ⟨source, hsource, rfl⟩ := List.mem_map.mp hline
    have hpair' : pair = (field.name, field.value) := Prod.ext hname hpair
    rw [hpair', headerPair_eq_some_iff (colon_notMem_name field)] at hread
    have heq : source = field :=
      List.inj_on_of_nodup_map request.names hsource hfield
        (eq_of_line (colon_notMem_name field) hread.1)
    exact heq ▸ hread
  · intro h name
    have hpairs : request.pairs = request.fields.map fun field => (field.name, field.value) := by
      have hread : ∀ field ∈ request.fields,
          HttpRequest.headerPair field.line = some (field.name, field.value) := fun field hfield =>
        (headerPair_eq_some_iff (colon_notMem_name field)).mpr (h field hfield)
      rw [pairs, List.filterMap_map]
      exact (List.filterMap_congr hread).trans (List.filterMap_eq_map ▸ rfl)
    rw [foldl_insertParam, Option.none_or, hpairs, List.find?_map, headerValue, Option.map_map]
    rfl

/-! ## The request that is made -/

/-- What is made of a head and a body. -/
def parsed (request : WireRequest) (body : List UInt8) (json : Json) : HttpRequest where
  method := request.method
  clientIp := []
  url := request.path
  queryString := request.query.getD []
  queryParams := HttpRequest.deserializeQueryParams (request.query.getD [])
  headerParams := request.pairs.foldl insertParam fun _ => none
  body := body
  bodyJson := json

theorem fields_ne_nil (h : request.isPost = true) : request.fields ≠ [] := by
  have hframed := request.framed
  rw [if_pos h] at hframed
  obtain ⟨⟨field, hfield, -⟩, -⟩ := hframed
  exact List.ne_nil_of_mem hfield

variable (doubles : DoubleText)

/-- **A request is made of the head and what has come behind it.** -/
theorem createNewHttpRequest_head (fuel : ℕ) {rest : List UInt8}
    (h : request.isPost = true ∨ rest = []) :
    HttpRequest.createNewHttpRequest doubles fuel (request.head ++ rest) = some
      (if request.isPost then
        (HttpRequest.parseBody doubles fuel rest).andThen fun json => .ok (request.parsed rest json)
      else .ok (request.parsed [] .null)) := by
  have hspace : space ∈ request.head ++ rest := by
    rw [head_append, requestLine]
    exact List.mem_append_left _ (List.mem_append_right _ List.mem_cons_self)
  have hparams := deserializeHeaderParams_head (h.imp fields_ne_nil id)
  rw [HttpRequest.createNewHttpRequest, if_pos hspace, word_head, ofWord_word, Option.map_some,
    HttpRequest.generate, HttpRequest.deserialize, deserializeUrl_head,
    deserializeQueryString_target, hparams, bodyOf_head]
  dsimp only [Call.andThen]
  cases hpost : request.isPost with
  | true =>
    have hbody : request.method.hasBody = true := by rw [method, hpost]; rfl
    rw [if_pos hbody, if_pos rfl]
    rfl
  | false =>
    have hbody : ¬ request.method.hasBody = true := by rw [method, hpost]; decide
    rw [if_neg hbody, if_neg (by decide)]
    rfl

variable {doubles}

/-- A header field gives the content length under a name the server knows. -/
def Counted (request : WireRequest) : Prop :=
  ∃ field ∈ request.fields,
    field.name = text "Content-Length" ∨ field.name = text "content-length"

instance (request : WireRequest) : Decidable request.Counted :=
  inferInstanceAs (Decidable (∃ field ∈ _, _))

/-- The value of a known name is the length of the body. -/
theorem stoi_headerValue (hpost : request.isPost = true) {name value : List UInt8}
    (hname : sameName name (text "Content-Length") = true)
    (h : request.headerValue name = some value) :
    value ≠ HttpRequest.paramNotFound ∧
      stoi value =
        if request.body.length < 2 ^ 31 then some (request.body.length : ℤ) else none := by
  obtain ⟨field, hfind, rfl⟩ := Option.map_eq_some_iff.mp h
  have hfield : field.name = name := by simpa using List.find?_some hfind
  have hframed := request.framed
  rw [if_pos hpost] at hframed
  obtain ⟨hne, hdigits, hlength⟩ := hframed.2 field (List.mem_of_find?_eq_some hfind) (by
    rw [HeaderField.isLength, hfield, hname])
  refine ⟨fun heq => ?_, ?_⟩
  · have hletter := hdigits 80 (heq ▸ by decide)
    exact absurd hletter (by decide)
  · rw [stoi_numeral hne hdigits, hlength]
    refine if_congr ⟨fun h => by have := h.2; omega, fun h => ⟨by omega, by omega⟩⟩ rfl rfl

theorem counted_of_headerValue {name value : List UInt8}
    (hname : name = text "Content-Length" ∨ name = text "content-length")
    (h : request.headerValue name = some value) : request.Counted := by
  obtain ⟨field, hfind, -⟩ := Option.map_eq_some_iff.mp h
  have hfield : field.name = name := by simpa using List.find?_some hfind
  exact ⟨field, List.mem_of_find?_eq_some hfind, hname.imp hfield.trans hfield.trans⟩

/-- **The content length the server goes by**: the length of the body, if the name is known. -/
theorem contentLength_parsed (hpost : request.isPost = true)
    (hheaders : ∀ name, request.pairs.foldl insertParam (fun _ => none) name =
      request.headerValue name) (body : List UInt8) (json : Json) :
    (request.parsed body json).contentLength =
      if request.Counted then
        if request.body.length < 2 ^ 31 then some (request.body.length : ℤ) else none
      else some 0 := by
  have hparam : ∀ name, (request.parsed body json).getHeaderParam name =
      (request.headerValue name).getD HttpRequest.paramNotFound := fun name =>
    congrArg (·.getD HttpRequest.paramNotFound) (hheaders name)
  rw [HttpRequest.contentLength, hparam, hparam]
  cases hfirst : request.headerValue (text "Content-Length") with
  | some value =>
    obtain ⟨hne, hstoi⟩ := stoi_headerValue hpost (by decide) hfirst
    rw [Option.getD_some, if_pos hne, hstoi, if_pos (counted_of_headerValue (.inl rfl) hfirst)]
  | none =>
    rw [Option.getD_none, if_neg (by simp)]
    cases hsecond : request.headerValue (text "content-length") with
    | some value =>
      obtain ⟨hne, hstoi⟩ := stoi_headerValue hpost (by decide) hsecond
      rw [Option.getD_some, if_pos hne, hstoi, if_pos (counted_of_headerValue (.inr rfl) hsecond)]
    | none =>
      rw [Option.getD_none, if_neg (by simp), if_neg]
      rintro ⟨field, hfield, hname | hname⟩
      · exact absurd (hname ▸ headerValue_of_mem hfield) (by rw [hfirst]; simp)
      · exact absurd (hname ▸ headerValue_of_mem hfield) (by rw [hsecond]; simp)

/-- **Whether the bytes are enough**: with a known length, when the body is as long as it says. -/
theorem isValidFormat_parsed (hpost : request.isPost = true)
    (hheaders : ∀ name, request.pairs.foldl insertParam (fun _ => none) name =
      request.headerValue name) (body : List UInt8) (json : Json) :
    (request.parsed body json).isValidFormat =
      if request.Counted then
        if request.body.length < 2 ^ 31 then
          some (decide (request.body.length = 0 ∨ request.body.length = body.length))
        else none
      else some true := by
  have hbody : (request.parsed body json).method.hasBody = true := by
    change request.method.hasBody = true
    rw [method, hpost]
    rfl
  rw [HttpRequest.isValidFormat, if_pos hbody, contentLength_parsed hpost hheaders]
  split
  · split
    · rw [Option.map_some]
      refine congrArg some (decide_eq_decide.mpr ?_)
      change ((request.body.length : ℤ) = 0 ∨ (request.body.length : ℤ) = (body.length : ℤ)) ↔ _
      omega
    · rfl
  · rfl

end WireRequest

/-! ## The read handler -/

namespace HttpSocketConnection

variable {doubles : DoubleText} {fuel : ℕ} {conn conn' : HttpSocketConnection}
  {buffer : List UInt8}

/-- It waits if the bytes make a request with a body that is too short. -/
theorem handleRead_waits_iff :
    conn.handleRead doubles fuel buffer = .ok (.waits, conn') ↔
      (∃ request, HttpRequest.createNewHttpRequest doubles fuel (cStr (conn.saveBuffer ++ buffer)) =
          some (.ok request) ∧ request.isValidFormat = some false) ∧
        conn' = ⟨conn.saveBuffer ++ buffer, conn.clientIp⟩ := by
  rw [handleRead]
  cases HttpRequest.createNewHttpRequest doubles fuel (cStr (conn.saveBuffer ++ buffer)) with
  | none => simp
  | some call =>
    cases call with
    | running => simp [Call.andThen]
    | throws => simp [Call.andThen]
    | ok request =>
      dsimp only [Call.andThen]
      cases hvalid : request.isValidFormat with
      | none => simp [hvalid]
      | some valid => cases valid <;> simp [hvalid, eq_comm]

/-- It executes the request the bytes make, if that is whole. -/
theorem handleRead_executes_iff {executed : HttpRequest} :
    conn.handleRead doubles fuel buffer = .ok (.executes executed, conn') ↔
      (∃ request, HttpRequest.createNewHttpRequest doubles fuel (cStr (conn.saveBuffer ++ buffer)) =
          some (.ok request) ∧ request.isValidFormat = some true ∧
            executed = { request with clientIp := conn.clientIp }) ∧
        conn' = ⟨[], conn.clientIp⟩ := by
  rw [handleRead]
  cases HttpRequest.createNewHttpRequest doubles fuel (cStr (conn.saveBuffer ++ buffer)) with
  | none => simp
  | some call =>
    cases call with
    | running => simp [Call.andThen]
    | throws => simp [Call.andThen]
    | ok request =>
      dsimp only [Call.andThen]
      cases hvalid : request.isValidFormat with
      | none => simp [hvalid]
      | some valid => cases valid <;> simp [hvalid, eq_comm]

variable (doubles) in
/-- Some calls of the read handler, one after the other, and what each of them starts; every call
comes to an end. -/
inductive Reads : HttpSocketConnection → List (List UInt8) → List ReadOutcome →
    HttpSocketConnection → Prop
  | nil (conn : HttpSocketConnection) : Reads conn [] [] conn
  | cons {conn conn' conn'' : HttpSocketConnection} {buffer : List UInt8} {outcome : ReadOutcome}
      {buffers : List (List UInt8)} {outcomes : List ReadOutcome} (fuel : ℕ)
      (h : conn.handleRead doubles fuel buffer = .ok (outcome, conn'))
      (rest : Reads conn' buffers outcomes conn'') :
      Reads conn (buffer :: buffers) (outcome :: outcomes) conn''

/-- The method and the header map of a request that is made. -/
theorem method_of_made {content : List UInt8} {request : HttpRequest}
    (h : HttpRequest.createNewHttpRequest doubles fuel content = some (.ok request)) :
    ∃ method, RequestMethod.ofWord (content.takeWhile fun c => c ≠ space) = some method ∧
      request.method = method ∧
      HttpRequest.deserializeHeaderParams content = .ok request.headerParams := by
  rw [HttpRequest.createNewHttpRequest] at h
  split at h
  · obtain ⟨method, hmethod, hmade⟩ := Option.map_eq_some_iff.mp h
    rw [HttpRequest.generate, HttpRequest.deserialize] at hmade
    cases hparams : HttpRequest.deserializeHeaderParams content with
    | running => rw [hparams] at hmade; cases hmade
    | throws => rw [hparams] at hmade; cases hmade
    | ok params =>
      rw [hparams] at hmade
      dsimp only [Call.andThen] at hmade
      split at hmade
      · cases hjson : HttpRequest.parseBody doubles fuel (HttpRequest.bodyOf content) with
        | running => rw [hjson] at hmade; cases hmade
        | throws => rw [hjson] at hmade; cases hmade
        | ok json =>
          rw [hjson] at hmade
          cases hmade
          exact ⟨method, hmethod, rfl, rfl⟩
      · cases hmade
        exact ⟨method, hmethod, rfl, rfl⟩
  · cases h

variable (doubles) in
/-- The bytes so far make a request that `is_valid_format` finds too short. -/
def WaitsFor (bytes : List UInt8) : Prop :=
  ∃ fuel request, HttpRequest.createNewHttpRequest doubles fuel (cStr bytes) = some (.ok request) ∧
    request.isValidFormat = some false

/-- **Calls that wait, and one that executes.** -/
theorem reads_iff {executed : HttpRequest} {earlier : List (List UInt8)} {last : List UInt8} :
    Reads doubles conn (earlier ++ [last])
        (List.replicate earlier.length .waits ++ [.executes executed]) conn' ↔
      (∀ k < earlier.length,
        WaitsFor doubles (conn.saveBuffer ++ (earlier.take (k + 1)).flatten)) ∧
      ∃ fuel, handleRead doubles fuel ⟨conn.saveBuffer ++ earlier.flatten, conn.clientIp⟩ last =
        .ok (.executes executed, conn') := by
  induction earlier generalizing conn with
  | nil =>
    simp only [List.nil_append, List.length_nil, List.replicate_zero, List.flatten_nil,
      List.append_nil, Nat.not_lt_zero, false_implies, implies_true, true_and]
    constructor
    · intro h
      cases h with
      | cons fuel h hnil =>
        cases hnil
        exact ⟨fuel, h⟩
    · rintro ⟨fuel, h⟩
      exact .cons fuel h (.nil _)
  | cons piece earlier ih =>
    have hnext : ∀ bytes : List UInt8, conn.saveBuffer ++ (piece ++ bytes) =
        conn.saveBuffer ++ piece ++ bytes := fun bytes => (List.append_assoc _ _ _).symm
    simp only [List.cons_append, List.length_cons, List.replicate_succ, List.flatten_cons, hnext]
    constructor
    · intro h
      cases h with
      | cons fuel h hrest =>
        obtain ⟨⟨request, hmade, hshort⟩, rfl⟩ := handleRead_waits_iff.mp h
        obtain ⟨hwaits, hlast⟩ := ih.mp hrest
        refine ⟨fun k hk => ?_, hlast⟩
        cases k with
        | zero => exact ⟨fuel, request, by simpa using hmade, hshort⟩
        | succ k =>
          have hk' := hwaits k (by omega)
          rwa [List.take_succ_cons, List.flatten_cons, hnext]
    · rintro ⟨hwaits, hlast⟩
      obtain ⟨fuel, request, hmade, hshort⟩ := hwaits 0 (Nat.succ_pos _)
      have hfirst : conn.handleRead doubles fuel piece =
          .ok (.waits, ⟨conn.saveBuffer ++ piece, conn.clientIp⟩) :=
        handleRead_waits_iff.mpr ⟨⟨request, by simpa using hmade, hshort⟩, rfl⟩
      refine .cons fuel hfirst (ih.mpr ⟨fun k hk => ?_, hlast⟩)
      have hk' := hwaits (k + 1) (by omega)
      rwa [List.take_succ_cons, List.flatten_cons, hnext] at hk'

end HttpSocketConnection

/-! ## A request is served -/

namespace WireRequest

variable {request : WireRequest} {doubles : DoubleText} {clientIp : List UInt8}

theorem zero_notMem_head : ∀ c ∈ request.head, c ≠ 0 := by
  intro c hc
  have hcrlf : ∀ c ∈ crlf, c ≠ 0 := forall_of_all (by decide)
  have hend : ∀ c ∈ headEnd, c ≠ 0 := forall_of_all (by decide)
  have hblank : ∀ c : UInt8, HttpsClientResponse.isBlank c = true → c ≠ 0 := by
    rintro c hblank rfl
    exact Bool.false_ne_true hblank
  rw [head, block, joinLines, List.mem_append, List.mem_append] at hc
  rcases hc with (hline | hfields) | hmem
  · exact (requestLine_char c hline).2.2
  · obtain ⟨line, hline, hmem⟩ := List.mem_flatMap.mp hfields
    obtain ⟨field, hfield, rfl⟩ := List.mem_map.mp hline
    rw [HeaderField.line, List.mem_append, List.mem_append, List.mem_cons, List.mem_append,
      List.mem_append] at hmem
    rcases hmem with hmem | hname | rfl | (hbefore | hvalue) | hafter
    · exact hcrlf c hmem
    · exact (field.name_char c hname).2.2.2.1
    · decide
    · exact hblank c (field.before_blank c hbefore)
    · exact request.value_char field hfield c hvalue
    · exact hblank c (field.after_blank c hafter)
  · exact hend c hmem

theorem cStr_head (rest : List UInt8) : cStr (request.head ++ rest) = request.head ++ cStr rest :=
  List.takeWhile_append_of_pos fun c hc => decide_eq_true (zero_notMem_head c hc)

theorem cStr_eq_self_iff {s : List UInt8} : cStr s = s ↔ 0 ∉ s := by
  rw [cStr, List.takeWhile_eq_self_iff]
  exact ⟨fun h hmem => of_decide_eq_true (h 0 hmem) rfl,
    fun h c hc => decide_eq_true fun heq => h (heq ▸ hc)⟩

/-- A way the bytes of a request come: in some calls, and one with the last byte. -/
structure Delivery (request : WireRequest) where
  earlier : List (List UInt8)
  last : List UInt8
  last_ne : last ≠ []
  cut : earlier.flatten ++ last = request.bytes

variable (doubles clientIp) in
/-- **A request is served once**: the earlier calls start nothing, the one with the last byte
executes it as it was sent, and the buffer is empty again. -/
def ServedOnce (delivery : request.Delivery) : Prop :=
  ∃ executed, request.ExecutedAs clientIp executed ∧
    HttpSocketConnection.Reads doubles ⟨[], clientIp⟩ (delivery.earlier ++ [delivery.last])
      (List.replicate delivery.earlier.length .waits ++ [.executes executed]) ⟨[], clientIp⟩

variable (doubles) in
/-- What the server can take: no NUL in the body, header lines it reads, a length that fits an
`int`, and a body whose parsers come to an end. -/
structure Acceptable (request : WireRequest) : Prop where
  noNul : 0 ∉ request.body
  plain : ∀ field ∈ request.fields, field.PlainLine
  length : request.isPost = true → request.Counted → request.body.length < 2 ^ 31
  parses : request.isPost = true →
    ∃ fuel json, HttpRequest.parseBody doubles fuel request.body = .ok json

/-- **All bytes are there**: the request is executed as it was sent exactly when the server can take
it. -/
theorem executes_iff (clientIp : List UInt8) {saved last : List UInt8}
    (hcut : saved ++ last = request.bytes) :
    (∃ executed, request.ExecutedAs clientIp executed ∧ ∃ fuel,
        HttpSocketConnection.handleRead doubles fuel ⟨saved, clientIp⟩ last =
          .ok (.executes executed, ⟨[], clientIp⟩)) ↔
      Acceptable doubles request := by
  have hbytes : cStr (saved ++ last) = request.head ++ cStr request.body := by
    rw [hcut, bytes, cStr_head]
  have hrest : request.isPost = true ∨ cStr request.body = [] := by
    have hframed := request.framed
    cases hpost : request.isPost with
    | true => exact .inl rfl
    | false =>
      rw [hpost, if_neg Bool.false_ne_true] at hframed
      exact .inr (by rw [hframed]; rfl)
  have hmade := fun fuel => createNewHttpRequest_head doubles fuel hrest
  constructor
  · rintro ⟨executed, hexecuted, fuel, h⟩
    obtain ⟨⟨made, hcall, hvalid, rfl⟩, -⟩ := HttpSocketConnection.handleRead_executes_iff.mp h
    rw [hbytes, hmade fuel, Option.some_inj] at hcall
    cases hpost : request.isPost with
    | false =>
      have hframed := request.framed
      rw [hpost, if_neg Bool.false_ne_true] at hframed
      rw [hpost, if_neg Bool.false_ne_true] at hcall
      cases hcall
      exact ⟨by rw [hframed]; exact List.not_mem_nil, headerParams_iff.mp hexecuted.headers,
        fun h => absurd h (by simp [hpost]), fun h => absurd h (by simp [hpost])⟩
    | true =>
      rw [hpost, if_pos rfl] at hcall
      cases hbody : HttpRequest.parseBody doubles fuel (cStr request.body) with
      | running => rw [hbody] at hcall; cases hcall
      | throws => rw [hbody] at hcall; cases hcall
      | ok json =>
        rw [hbody] at hcall
        cases hcall
        have hself : cStr request.body = request.body := hexecuted.body
        refine ⟨cStr_eq_self_iff.mp hself, headerParams_iff.mp hexecuted.headers,
          fun _ hcounted => ?_,
          fun _ => ⟨fuel, json, hself ▸ hbody⟩⟩
        rw [isValidFormat_parsed hpost hexecuted.headers, if_pos hcounted] at hvalid
        by_contra hlong
        rw [if_neg hlong] at hvalid
        cases hvalid
  · intro h
    have hheaders := headerParams_iff.mpr h.plain
    have hself := cStr_eq_self_iff.mpr h.noNul
    cases hpost : request.isPost with
    | false =>
      have hframed := request.framed
      rw [hpost, if_neg Bool.false_ne_true] at hframed
      have hmethod : request.method.hasBody = false := by
        rw [method, hpost]
        rfl
      refine ⟨{ request.parsed [] .null with clientIp := clientIp },
        ⟨rfl, rfl, rfl, rfl, hheaders, hframed.symm⟩, 0,
        HttpSocketConnection.handleRead_executes_iff.mpr
          ⟨⟨request.parsed [] .null, ?_, ?_, rfl⟩, rfl⟩⟩
      · rw [hbytes, hmade 0, hpost, if_neg Bool.false_ne_true]
      · rw [HttpRequest.isValidFormat, if_neg]
        exact fun hbody => Bool.false_ne_true (hmethod.symm.trans hbody)
    | true =>
      obtain ⟨fuel, json, hjson⟩ := h.parses hpost
      refine ⟨{ request.parsed request.body json with clientIp := clientIp },
        ⟨rfl, rfl, rfl, rfl, hheaders, rfl⟩, fuel,
        HttpSocketConnection.handleRead_executes_iff.mpr
          ⟨⟨request.parsed request.body json, ?_, ?_, rfl⟩, rfl⟩⟩
      · rw [hbytes, hmade fuel, hpost, if_pos rfl, hself, hjson]
        rfl
      · rw [isValidFormat_parsed hpost hheaders]
        split
        · next hcounted => rw [if_pos (h.length hpost hcounted), decide_eq_true (.inr rfl)]
        · rfl

/-- **A request is served once, whole, and when its last byte has come, exactly when** the server
can take it and each earlier call finds a request that is too short. -/
theorem served_iff (doubles : DoubleText) (clientIp : List UInt8) (delivery : request.Delivery) :
    ServedOnce doubles clientIp delivery ↔
      Acceptable doubles request ∧ ∀ k < delivery.earlier.length,
        HttpSocketConnection.WaitsFor doubles (delivery.earlier.take (k + 1)).flatten := by
  rw [ServedOnce, ← executes_iff clientIp delivery.cut]
  simp only [HttpSocketConnection.reads_iff, List.nil_append]
  constructor
  · rintro ⟨executed, hexecuted, hwaits, hlast⟩
    exact ⟨⟨executed, hexecuted, hlast⟩, hwaits⟩
  · rintro ⟨⟨executed, hexecuted, hlast⟩, hwaits⟩
    exact ⟨executed, hexecuted, hwaits, hlast⟩

/-- `GET / HTTP/1.1`, cut behind the second letter. -/
def cutGet : WireRequest where
  isPost := false
  path := text "/"
  query := none
  version := text "HTTP/1.1"
  fields := []
  body := []
  path_char := forall_of_all (by decide)
  query_char := by rintro _ ⟨⟩
  version_char := forall_of_all (by decide)
  value_char := by rintro _ ⟨⟩
  names := List.nodup_nil
  framed := rfl

def cutGetDelivery : cutGet.Delivery where
  earlier := [text "GE"]
  last := text "T / HTTP/1.1" ++ headEnd
  last_ne := List.cons_ne_nil _ _
  cut := rfl

/-- The first call answers 404 to the letters `GE`. -/
theorem cutGet_not_served :
    ¬ ∀ (doubles : DoubleText) (clientIp : List UInt8) (request : WireRequest)
      (delivery : request.Delivery), ServedOnce doubles clientIp delivery := by
  intro h
  obtain ⟨executed, -, hreads⟩ := h ⟨fun _ => [], fun _ => none⟩ [] cutGet cutGetDelivery
  cases hreads with
  | cons fuel hfirst hrest => cases hfirst

/-! ## Where a request may be cut -/

/-- The header lines are read from a part of the text. -/
theorem infix_of_substr {start : ℕ} {stop : Option ℕ} {s part : List UInt8}
    (h : substr start stop s = .ok part) : part <:+: s := by
  unfold substr at h
  split at h
  · cases h
  · cases stop with
    | none =>
      cases h
      exact (List.drop_suffix _ _).isInfix
    | some stop =>
      dsimp only at h
      split at h
      · cases h
        exact (List.drop_suffix _ _).isInfix.trans (List.take_prefix _ _).isInfix
      · cases h
        exact (List.drop_suffix _ _).isInfix

/-- A header that is in the map is in the text. -/
theorem infix_of_headerParams {content name value : List UInt8}
    {params : List UInt8 → Option (List UInt8)}
    (h : HttpRequest.deserializeHeaderParams content = .ok params)
    (hname : params name = some value) : name ++ [colon, space] <:+: content := by
  rw [HttpRequest.deserializeHeaderParams] at h
  cases hblock : substr (HttpRequest.startOfHeader content) (find headEnd content) content with
  | running => rw [hblock] at h; cases h
  | throws => rw [hblock] at h; cases h
  | ok block =>
    rw [hblock] at h
    cases h
    rw [foldl_insertParam, Option.none_or, Option.map_eq_some_iff] at hname
    obtain ⟨pair, hfind, -⟩ := hname
    have hkey : pair.1 = name := by simpa using List.find?_some hfind
    obtain ⟨line, hline, hread⟩ := List.mem_filterMap.mp (List.mem_of_find?_eq_some hfind)
    exact hkey ▸ ((prefix_of_headerPair hread).isInfix.trans
      (infix_of_mem_splitString hline)).trans (infix_of_substr hblock)

/-- **A call waits only when the bytes announce a length**: a cut in front of that header line, or
in its name, does not wait. -/
theorem announces_of_waitsFor {bytes : List UInt8}
    (h : HttpSocketConnection.WaitsFor doubles bytes) :
    text "Content-Length" ++ [colon, space] <:+: cStr bytes ∨
      text "content-length" ++ [colon, space] <:+: cStr bytes := by
  obtain ⟨fuel, request, hmade, hshort⟩ := h
  obtain ⟨-, -, -, hparams⟩ := HttpSocketConnection.method_of_made hmade
  by_contra hnone
  rw [not_or] at hnone
  have hparam : ∀ name, ¬ name ++ [colon, space] <:+: cStr bytes →
      request.getHeaderParam name = HttpRequest.paramNotFound := by
    intro name hinfix
    rw [HttpRequest.getHeaderParam]
    cases hvalue : request.headerParams name with
    | none => rfl
    | some value => exact absurd (infix_of_headerParams hparams hvalue) hinfix
  have hlength : request.contentLength = some 0 := by
    rw [HttpRequest.contentLength, hparam _ hnone.1, hparam _ hnone.2, if_neg (by simp),
      if_neg (by simp)]
  rw [HttpRequest.isValidFormat, hlength] at hshort
  split at hshort
  · exact absurd hshort (by simp)
  · cases hshort

/-- A `GET` never waits. -/
theorem not_waitsFor_get {bytes : List UInt8} (h : (text "GET ") <+: bytes) :
    ¬ HttpSocketConnection.WaitsFor doubles bytes := by
  rintro ⟨fuel, request, hmade, hshort⟩
  obtain ⟨rest, rfl⟩ := h
  have hword : (cStr (text "GET " ++ rest)).takeWhile (fun c => c ≠ space) = text "GET" := rfl
  obtain ⟨method, hmethod, hrequest, -⟩ := HttpSocketConnection.method_of_made hmade
  have hget : RequestMethod.ofWord (text "GET") = some .get := by decide
  rw [hword, hget, Option.some_inj] at hmethod
  subst hmethod
  rw [HttpRequest.isValidFormat, hrequest] at hshort
  cases hshort

/-- **Behind the head every cut is good**: a request with a known length that is not 0 waits for the
rest of its body, if the parsers come to an end on what is there. -/
theorem waitsFor_head (h : Acceptable doubles request) (hpost : request.isPost = true)
    (hcounted : request.Counted) {part : List UInt8} (hpart : part <+: request.body)
    (hshort : part ≠ request.body)
    (hparses : ∃ fuel json, HttpRequest.parseBody doubles fuel part = .ok json) :
    HttpSocketConnection.WaitsFor doubles (request.head ++ part) := by
  obtain ⟨fuel, json, hjson⟩ := hparses
  have hself : cStr part = part := cStr_eq_self_iff.mpr fun hmem => h.noNul (hpart.mem hmem)
  have hlt : part.length < request.body.length :=
    lt_of_le_of_ne hpart.length_le fun heq => hshort (hpart.eq_of_length heq)
  refine ⟨fuel, request.parsed part json, ?_, ?_⟩
  · rw [cStr_head, hself, createNewHttpRequest_head doubles fuel (.inl hpost), hpost, if_pos rfl,
      hjson]
    rfl
  · rw [isValidFormat_parsed hpost (headerParams_iff.mpr h.plain), if_pos hcounted,
      if_pos (h.length hpost hcounted), decide_eq_false (by omega)]

end WireRequest

end TradingEngine
