import TradingEngine.Api.RouteController

/-!
# Api/Routing — what the order of the route groups decides

The groups are tried before the routes, in the order the hash map is iterated in, and a group matches
wherever its name stands in the URL.  `routing_spec` says what holds in every order: the handlers are
the same exactly when all groups that match have the same one, and an exact route is served by its
handler exactly when the groups that match leave the request to it.
-/

namespace TradingEngine

open Ascii

namespace RouteController

variable {ρ : Type*} {controller : RouteController ρ} {setup : RouteSetup ρ} {request : HttpRequest}
  {handler handler' : ρ} {groups : List (List UInt8 × (Option RequestMethod → Option ρ))}

/-- The groups in another order. -/
def reordered (controller : RouteController ρ)
    (groups : List (List UInt8 × (Option RequestMethod → Option ρ))) : RouteController ρ :=
  { controller with routeGroupMap := groups }

/-- A group that matches the request has this handler for it. -/
def GroupMatches (controller : RouteController ρ) (request : HttpRequest) (handler : ρ) : Prop :=
  ∃ group ∈ controller.routeGroupMap, groupHandler request group = some handler

/-- The request is answered by this handler, unless that one finds nothing. -/
def ServedBy (controller : RouteController ρ) (setup : RouteSetup ρ) (request : HttpRequest)
    (handler : ρ) : Prop :=
  (controller.calledHandlers setup request).getLast? = some handler

theorem GroupMatches.of_handlerByRouteGroup
    (h : controller.handlerByRouteGroup request = some handler) :
    controller.GroupMatches request handler := by
  obtain ⟨front, group, back, hgroups, hhandler, -⟩ := List.findSome?_eq_some_iff.mp h
  refine ⟨group, ?_, hhandler⟩
  rw [hgroups]
  exact List.mem_append_right front List.mem_cons_self

/-- In another order the same groups match. -/
theorem groupMatches_reordered (hperm : groups.Perm controller.routeGroupMap) :
    (controller.reordered groups).GroupMatches request handler ↔
      controller.GroupMatches request handler :=
  ⟨fun ⟨group, hgroup, h⟩ => ⟨group, hperm.mem_iff.mp hgroup, h⟩,
    fun ⟨group, hgroup, h⟩ => ⟨group, hperm.mem_iff.mpr hgroup, h⟩⟩

/-- **Any group that matches comes first** in some order. -/
theorem GroupMatches.exists_first (h : controller.GroupMatches request handler) :
    ∃ groups, groups.Perm controller.routeGroupMap ∧
      (controller.reordered groups).handlerByRouteGroup request = some handler := by
  obtain ⟨group, hgroup, hhandler⟩ := h
  obtain ⟨front, back, hgroups⟩ := List.append_of_mem hgroup
  refine ⟨group :: (front ++ back), ?_, ?_⟩
  · rw [hgroups]
    exact List.perm_middle.symm
  · rw [handlerByRouteGroup, reordered, List.findSome?_cons, hhandler]

/-- The handler of the groups, if any of them matches. -/
theorem exists_handlerByRouteGroup (h : controller.GroupMatches request handler) :
    ∃ first, controller.handlerByRouteGroup request = some first := by
  obtain ⟨group, hgroup, hhandler⟩ := h
  refine Option.isSome_iff_exists.mp (List.findSome?_isSome_iff.mpr ⟨group, hgroup, ?_⟩)
  rw [hhandler]
  exact rfl

/-- A group that matches is called first. -/
theorem head_calledHandlers (h : controller.handlerByRouteGroup request = some handler) :
    (controller.calledHandlers setup request).head? = some handler := by
  rw [calledHandlers, h]
  rfl

/-- **When an exact route is served**: the groups leave the request to it. -/
theorem servedBy_iff (hroute : controller.handlerByRoute request = some handler) :
    controller.ServedBy setup request handler ↔
      ∀ first, controller.handlerByRouteGroup request = some first →
        (setup.handle first request).isNotFound = true ∨ first = handler := by
  rw [ServedBy, calledHandlers, hroute]
  cases hgroup : controller.handlerByRouteGroup request with
  | none => exact iff_of_true rfl (by rintro first ⟨⟩)
  | some first =>
    have hhandled : handled setup request (some first) = setup.handle first request := rfl
    rw [hhandled]
    by_cases hnone : (setup.handle first request).isNotFound = true
    · rw [if_pos hnone]
      refine iff_of_true rfl ?_
      rintro _ ⟨⟩
      exact .inl hnone
    · rw [if_neg hnone]
      constructor
      · rintro hlast _ ⟨⟩
        exact .inr (Option.some.inj hlast)
      · intro h
        exact congrArg some ((h first rfl).resolve_left hnone)

/-- **The order of the groups does not matter** where all that match have one handler. -/
theorem handlerByRouteGroup_reordered (hperm : groups.Perm controller.routeGroupMap)
    (hone : ∀ first second, controller.GroupMatches request first →
      controller.GroupMatches request second → first = second) :
    (controller.reordered groups).handlerByRouteGroup request =
      controller.handlerByRouteGroup request := by
  have hmatches : ∀ {first}, (controller.reordered groups).handlerByRouteGroup request = some first →
      controller.GroupMatches request first := fun h =>
    (groupMatches_reordered hperm).mp (.of_handlerByRouteGroup h)
  cases hfirst : controller.handlerByRouteGroup request with
  | none =>
    cases hother : (controller.reordered groups).handlerByRouteGroup request with
    | none => rfl
    | some first =>
      obtain ⟨_, hsome⟩ := exists_handlerByRouteGroup (hmatches hother)
      rw [hfirst] at hsome
      cases hsome
  | some first =>
    have hmatch := GroupMatches.of_handlerByRouteGroup hfirst
    obtain ⟨second, hsecond⟩ :=
      exists_handlerByRouteGroup ((groupMatches_reordered hperm).mpr hmatch)
    rw [hsecond, hone second first (hmatches hsecond) hmatch]

/-- **Routing, in every order of the groups.**  The handlers that are called do not depend on the
order exactly when all groups that match have the same handler.  An exact route is served by its
handler in every order exactly when every group that matches leaves the request to it. -/
theorem routing_spec (controller : RouteController ρ) (setup : RouteSetup ρ)
    (request : HttpRequest) :
    ((∀ groups, groups.Perm controller.routeGroupMap →
        (controller.reordered groups).calledHandlers setup request =
          controller.calledHandlers setup request) ↔
      ∀ first second, controller.GroupMatches request first →
        controller.GroupMatches request second → first = second) ∧
    ∀ handler, controller.handlerByRoute request = some handler →
      ((∀ groups, groups.Perm controller.routeGroupMap →
          (controller.reordered groups).ServedBy setup request handler) ↔
        ∀ first, controller.GroupMatches request first →
          (setup.handle first request).isNotFound = true ∨ first = handler) := by
  refine ⟨⟨fun hsame first second hfirst hsecond => ?_, fun hone groups hperm => ?_⟩,
    fun handler hroute => ⟨fun hserved first hfirst => ?_, fun hleaves groups hperm => ?_⟩⟩
  · obtain ⟨groups, hperm, hgroup⟩ := hfirst.exists_first
    obtain ⟨groups', hperm', hgroup'⟩ := hsecond.exists_first
    have hhead : ((controller.reordered groups).calledHandlers setup request).head? = some first :=
      head_calledHandlers hgroup
    rw [hsame groups hperm, ← hsame groups' hperm', head_calledHandlers hgroup'] at hhead
    exact (Option.some.inj hhead).symm
  · rw [calledHandlers, calledHandlers, handlerByRouteGroup_reordered hperm hone]
    rfl
  · obtain ⟨groups, hperm, hgroup⟩ := hfirst.exists_first
    have hroute' : (controller.reordered groups).handlerByRoute request = some handler := hroute
    exact (servedBy_iff hroute').mp (hserved groups hperm) first hgroup
  · have hroute' : (controller.reordered groups).handlerByRoute request = some handler := hroute
    refine (servedBy_iff hroute').mpr fun first hgroup => ?_
    exact hleaves first ((groupMatches_reordered hperm).mp (.of_handlerByRouteGroup hgroup))

/-! ## Groups that overlap -/

/-- A request for a page. -/
def pageRequest (url : List UInt8) : HttpRequest :=
  ⟨.get, [], url, [], fun _ => none, fun _ => none, [], .null⟩

/-- A file system without files. -/
def emptyFileSystem : FileSystem where
  isDirectory place := place = []
  file _ := none
  directory_root := rfl
  directory_parent place name h := by simp at h
  file_parent place name h := absurd rfl h
  file_or_directory place h := absurd rfl h

/-- Every handler finds something. -/
def respondingSetup : RouteSetup ℕ where
  doubles := ⟨fun _ => [], fun _ => none⟩
  handle _ _ := .responds ⟨.ok200, .tree .null, [], false, .noneType, []⟩
  badRequestGetter _ := HttpRequest.notFoundMessage
  fileSystem := emptyFileSystem
  cwd := []
  dirPath := text "web_data"

/-- A route for `GET`. -/
def getOnly (handler : ℕ) : Option RequestMethod → Option ℕ :=
  fun method => if method = some .get then some handler else none

/-- Two of the program's groups, and a route with the name of one of them in its URL. -/
def overlapping : RouteController ℕ where
  routeGroupMap := [(text "libraries", getOnly 0), (text "#/", getOnly 1)]
  routeMap url := if url = text "/libraries#/list" then getOnly 2 else fun _ => none
  dashboardFolder := text "vuejs_ui/dist"

/-- **The order decides** between the two groups, and the exact route is not served. -/
theorem overlapping_routing :
    (∃ groups, groups.Perm overlapping.routeGroupMap ∧
      (overlapping.reordered groups).calledHandlers respondingSetup
          (pageRequest (text "/libraries#/list")) ≠
        overlapping.calledHandlers respondingSetup (pageRequest (text "/libraries#/list"))) ∧
    overlapping.handlerByRoute (pageRequest (text "/libraries#/list")) = some 2 ∧
    ¬ overlapping.ServedBy respondingSetup (pageRequest (text "/libraries#/list")) 2 := by
  refine ⟨⟨overlapping.routeGroupMap.reverse, List.reverse_perm _, ?_⟩, rfl, ?_⟩
  · decide
  · rw [ServedBy]
    decide

end RouteController

end TradingEngine
