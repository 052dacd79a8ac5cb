import TradingEngine.WebSocketServer.Server

/-!
# Api/Authentication — the cookie that authenticates a request

`APIHandler` and the WebSocket server cut a cookie line in the same places, but only the server
trims the names and the values.  A browser writes a blank behind each semicolon, so the REST API
finds a cookie only where it stands first.  `parsersAgree_iff` says when the two find the same token.
-/

namespace TradingEngine

open Ascii

/-! ## The last value of a name -/

section LastValue

variable {α β : Type*} [DecidableEq α] {name : α} {pairs front back : List (α × β)} {pair : α × β}

/-- What a map holds after these assignments. -/
def lastValue (name : α) (pairs : List (α × β)) : Option β :=
  (pairs.reverse.find? fun pair => pair.1 = name).map (·.2)

theorem foldl_update (pairs : List (α × β)) (m : α → Option β) (name : α) :
    pairs.foldl (fun (m : α → Option β) pair => Function.update m pair.1 (some pair.2)) m name =
      (lastValue name pairs).or (m name) := by
  induction pairs generalizing m with
  | nil => rfl
  | cons pair pairs ih =>
    rw [List.foldl_cons, ih, lastValue, lastValue, List.reverse_cons, List.find?_append,
      Option.map_or, Option.or_assoc]
    refine congrArg (Option.or _) ?_
    by_cases hname : pair.1 = name
    · subst hname
      simp
    · simp [hname, Function.update_of_ne (Ne.symm hname)]

theorem lastValue_eq_none (h : ∀ pair ∈ pairs, pair.1 ≠ name) : lastValue name pairs = none := by
  rw [lastValue, Option.map_eq_none_iff, List.find?_eq_none]
  intro pair hpair hname
  exact h pair (List.mem_reverse.mp hpair) (of_decide_eq_true hname)

/-- Assignments to other names do not count. -/
theorem lastValue_append_cons (h : ∀ pair ∈ back, pair.1 ≠ name) :
    lastValue name (front ++ pair :: back) =
      if pair.1 = name then some pair.2 else lastValue name front := by
  have hback := Option.map_eq_none_iff.mp (lastValue_eq_none h)
  rw [lastValue, List.reverse_append, List.reverse_cons, List.append_assoc, List.find?_append,
    hback, Option.none_or, List.singleton_append, List.find?_cons]
  by_cases hname : pair.1 = name <;> simp [hname, lastValue]

/-- **The last pair of a name**, if there is one. -/
theorem none_or_last (f : α → α) (name : α) (pairs : List (α × β)) :
    (∀ pair ∈ pairs, f pair.1 ≠ name) ∨ ∃ front pair back, pairs = front ++ pair :: back ∧
      f pair.1 = name ∧ ∀ other ∈ back, f other.1 ≠ name := by
  induction pairs using List.reverseRecOn with
  | nil => exact .inl fun _ h => absurd h List.not_mem_nil
  | append_singleton pairs last ih =>
    by_cases hlast : f last.1 = name
    · exact .inr ⟨pairs, last, [], rfl, hlast, fun _ h => absurd h List.not_mem_nil⟩
    rcases ih with hnone | ⟨front, pair, back, rfl, hpair, hback⟩
    · refine .inl fun pair hmem => ?_
      rcases List.mem_append.mp hmem with hfront | hend
      · exact hnone pair hfront
      · exact List.mem_singleton.mp hend ▸ hlast
    · refine .inr ⟨front, pair, back ++ [last], by simp, hpair, fun other hmem => ?_⟩
      rcases List.mem_append.mp hmem with hother | hend
      · exact hback other hother
      · exact List.mem_singleton.mp hend ▸ hlast

end LastValue

/-! ## The two parsers -/

/-- The names and values of a cookie line, as they stand there. -/
def cookiePairs (header : List UInt8) : List (List UInt8 × List UInt8) :=
  ((splitString [semicolon] header).filter (HttpRequest.equalsSign ∈ ·)).map fun pair =>
    (pair.takeWhile (· ≠ HttpRequest.equalsSign), (pair.dropWhile (· ≠ HttpRequest.equalsSign)).tail)

def accessToken : List UInt8 := text "accessToken"

/-- `VALID_TOKEN`. -/
def validToken : List UInt8 := text "valid_token"

namespace APIHandler

/-- `parse_cookie_header`. -/
def parseCookieHeader (header : List UInt8) : List UInt8 → Option (List UInt8) :=
  (cookiePairs header).foldl
    (fun cookies cookie => Function.update cookies cookie.1 (some cookie.2)) fun _ => none

/-- The token that `check_authentication` looks for: in two headers, and in the cookies. -/
def tokenOf (request : HttpRequest) : List UInt8 :=
  let header := fun name => request.getHeaderParam (text name)
  if header "token" ≠ HttpRequest.paramNotFound then header "token"
  else if header "Authorization" ≠ HttpRequest.paramNotFound then header "Authorization"
  else
    let cookiesHeader :=
      if header "Cookie" ≠ HttpRequest.paramNotFound then header "Cookie" else header "cookie"
    (parseCookieHeader cookiesHeader accessToken).getD HttpRequest.paramNotFound

/-- `check_authentication`. -/
def checkAuthentication (setup : WebsocketSetup) (request : HttpRequest) : List UInt8 :=
  let token := tokenOf request
  if token = HttpRequest.paramNotFound then text "Missing token"
  else if setup.verifyToken token ≠ validToken then setup.verifyToken token
  else if setup.getPayload token (text "type") ≠ text "user" then text "Not user token"
  else if setup.getPayload token (text "user_id") ≠ text "root" then text "Not root user"
  else validToken

theorem parseCookieHeader_eq (header name : List UInt8) :
    parseCookieHeader header name = lastValue name (cookiePairs header) :=
  (foldl_update _ _ name).trans (Option.or_none)

/-- Both servers ask the same of a token. -/
theorem checkAuthentication_eq_validToken (setup : WebsocketSetup) (request : HttpRequest) :
    checkAuthentication setup request = validToken ↔
      tokenOf request ≠ HttpRequest.paramNotFound ∧ setup.checkIsValidToken (tokenOf request) := by
  have hvalid : text "valid_token" = validToken := rfl
  have hmissing : text "Missing token" ≠ validToken := by decide
  have huser : text "Not user token" ≠ validToken := by decide
  have hroot : text "Not root user" ≠ validToken := by decide
  rw [checkAuthentication, WebsocketSetup.checkIsValidToken, hvalid]
  split_ifs with htoken hverify htype hid <;> simp_all

end APIHandler

/-- The pairs that the WebSocket server sees: trimmed. -/
def trimmedPairs (header : List UInt8) : List (List UInt8 × List UInt8) :=
  (cookiePairs header).map fun cookie =>
    (WebsocketUpgradeRequest.trim cookie.1, WebsocketUpgradeRequest.trim cookie.2)

namespace WebsocketUpgradeRequest

theorem parseCookieHeader_eq (header name : List UInt8) :
    parseCookieHeader header name = lastValue name (trimmedPairs header) := by
  rw [trimmedPairs, cookiePairs, List.map_map]
  exact (foldl_update _ _ name).trans (Option.or_none)

end WebsocketUpgradeRequest

/-! ## When they agree -/

open WebsocketUpgradeRequest (trim)

variable {header : List UInt8}

/-- A text without a dot is no token. -/
def WebsocketSetup.RefusesUndotted (setup : WebsocketSetup) : Prop :=
  ∀ token, dot ∉ token → setup.verifyToken token ≠ validToken

/-- The only credentials of a request are its cookies. -/
structure HttpRequest.SendsCookies (request : HttpRequest) (header : List UInt8) : Prop where
  token : request.headerParams (text "token") = none
  authorization : request.headerParams (text "Authorization") = none
  cookie : request.headerParams (text "Cookie") = some header
  lowerCookie : request.headerParams (text "cookie") = none

/-- The two parsers find the same token, and what authenticates with one server does so with the
other. -/
structure ParsersAgree (header : List UInt8) : Prop where
  token : APIHandler.parseCookieHeader header accessToken =
    WebsocketUpgradeRequest.parseCookieHeader header accessToken
  authenticates : ∀ (setup : WebsocketSetup) (request : HttpRequest), setup.RefusesUndotted →
    request.SendsCookies header →
      (APIHandler.checkAuthentication setup request = validToken ↔
        setup.checkIsValidToken
          ((WebsocketUpgradeRequest.parseCookieHeader header accessToken).getD []))

/-- **The condition.**  Of the cookies whose name is `accessToken` up to blanks, the last one has no
blanks around its name and value; or it has them around its name, and the last cookie in front of it
that is named exactly so has its value. -/
def TokenUnpadded (header : List UInt8) : Prop :=
  ∀ front cookie back, cookiePairs header = front ++ cookie :: back → trim cookie.1 = accessToken →
    (∀ other ∈ back, trim other.1 ≠ accessToken) →
      if cookie.1 = accessToken then trim cookie.2 = cookie.2
      else lastValue accessToken front = some (trim cookie.2)

theorem trim_accessToken : trim accessToken = accessToken := by decide

/-- A token that is found authenticates alike. -/
theorem authenticates_of_token {setup : WebsocketSetup} {request : HttpRequest}
    (htoken : APIHandler.parseCookieHeader header accessToken =
      WebsocketUpgradeRequest.parseCookieHeader header accessToken)
    (hrefuses : setup.RefusesUndotted) (hsends : request.SendsCookies header) :
    APIHandler.checkAuthentication setup request = validToken ↔ setup.checkIsValidToken
      ((WebsocketUpgradeRequest.parseCookieHeader header accessToken).getD []) := by
  have hundotted : ∀ token, dot ∉ token → setup.checkIsValidToken token = false := by
    intro token hdot
    rw [WebsocketSetup.checkIsValidToken, decide_eq_false_iff_not]
    exact fun h => hrefuses token hdot h.1
  have hfound : APIHandler.tokenOf request =
      (APIHandler.parseCookieHeader header accessToken).getD HttpRequest.paramNotFound := by
    have hnone : APIHandler.parseCookieHeader HttpRequest.paramNotFound accessToken = none := by
      decide
    simp only [APIHandler.tokenOf, HttpRequest.getHeaderParam, hsends.token, hsends.authorization,
      hsends.cookie, hsends.lowerCookie, Option.getD_none, Option.getD_some, ne_eq,
      not_true_eq_false, if_false]
    split_ifs with heq
    · rw [hnone, heq, hnone]
    · rfl
  rw [APIHandler.checkAuthentication_eq_validToken, hfound, ← htoken]
  cases APIHandler.parseCookieHeader header accessToken with
  | none => simp [hundotted [] List.not_mem_nil]
  | some token =>
    rw [Option.getD_some, Option.getD_some, and_iff_right_iff_imp]
    rintro hvalid rfl
    exact Bool.false_ne_true ((hundotted _ (by decide)).symm.trans hvalid)

/-- **When the two parsers agree.** -/
theorem parsersAgree_iff (header : List UInt8) : ParsersAgree header ↔ TokenUnpadded header := by
  have hagree : ParsersAgree header ↔ lastValue accessToken (cookiePairs header) =
      lastValue accessToken (trimmedPairs header) := by
    rw [← APIHandler.parseCookieHeader_eq, ← WebsocketUpgradeRequest.parseCookieHeader_eq]
    exact ⟨ParsersAgree.token, fun h => ⟨h, fun _ _ => authenticates_of_token h⟩⟩
  rw [hagree]
  -- what the two find, from the last cookie that the server takes for the token
  have hlast : ∀ front cookie back, cookiePairs header = front ++ cookie :: back →
      trim cookie.1 = accessToken → (∀ other ∈ back, trim other.1 ≠ accessToken) →
        lastValue accessToken (trimmedPairs header) = some (trim cookie.2) ∧
          lastValue accessToken (cookiePairs header) =
            if cookie.1 = accessToken then some cookie.2 else lastValue accessToken front := by
    intro front cookie back hpairs hname hback
    constructor
    · rw [trimmedPairs, hpairs, List.map_append, List.map_cons, lastValue_append_cons,
        if_pos hname]
      intro other hother
      obtain ⟨pair, hpair, rfl⟩ := List.mem_map.mp hother
      exact hback pair hpair
    · rw [hpairs, lastValue_append_cons]
      intro other hother hexact
      exact hback other hother (hexact.symm ▸ trim_accessToken)
  constructor
  · intro heq front cookie back hpairs hname hback
    obtain ⟨hserver, hapi⟩ := hlast front cookie back hpairs hname hback
    rw [hserver, hapi] at heq
    split_ifs at heq ⊢
    · exact (Option.some.inj heq).symm
    · exact heq
  · intro hcond
    rcases none_or_last trim accessToken (cookiePairs header) with
      hnone | ⟨front, cookie, back, hpairs, hname, hback⟩
    · rw [lastValue_eq_none fun pair hpair hexact => ?_, trimmedPairs, lastValue_eq_none]
      · intro pair hpair
        obtain ⟨cookie, hcookie, rfl⟩ := List.mem_map.mp hpair
        exact hnone cookie hcookie
      · exact hnone pair hpair (hexact.symm ▸ trim_accessToken)
    · obtain ⟨hserver, hapi⟩ := hlast front cookie back hpairs hname hback
      have hthis := hcond front cookie back hpairs hname hback
      rw [hserver, hapi]
      split_ifs at hthis ⊢
      · rw [hthis]
      · exact hthis

/-- A browser's cookie line, with the token behind another cookie. -/
theorem secondCookie_disagrees : ¬ ParsersAgree (text "theme=dark; accessToken=t") := by
  intro h
  exact absurd h.token (by decide)

end TradingEngine
