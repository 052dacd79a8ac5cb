import TradingEngine.Api.RouteController
import TradingEngine.Http.RequestAssembly

/-!
# Api/ServedFiles — the folders that files are sent from

The URL of a request is put behind the name of a folder and opened, and nothing looks at its dots:
`servedInside_iff` says which URLs stay in the folder.  Behind the dashboard folder no slash is put
either, so a URL without one names a neighbour of the folder.
-/

namespace TradingEngine

open Ascii Paths

/-! ## Folders -/

/-- A name that a path can go into. -/
structure ProperName (name : FileName) : Prop where
  move : moveOf name = .into name
  slash : slash ∉ name
  noNul : 0 ∉ name

/-- The relative path of a folder. -/
structure FolderPath where
  parents : List FileName
  last : FileName
  proper_parents : ∀ name ∈ parents, ProperName name
  proper_last : ProperName last

namespace FolderPath

variable (folder : FolderPath)

def names : List FileName := folder.parents ++ [folder.last]

/-- The path as a text. -/
def text : List UInt8 := folder.parents.flatMap (· ++ [slash]) ++ folder.last

end FolderPath

theorem cStr_append {s : List UInt8} (h : 0 ∉ s) (t : List UInt8) : cStr (s ++ t) = s ++ cStr t :=
  List.takeWhile_append_of_pos fun c hc => decide_eq_true fun hzero : c = 0 => h (hzero ▸ hc)

/-- A path is cut at its first slash. -/
theorem movesOf_cons {name : FileName} (h : slash ∉ name) (path : List UInt8) :
    movesOf (name ++ slash :: path) = moveOf name :: movesOf path := by
  have hcut : cut [slash] (name ++ slash :: path) = some (name, path) :=
    cut_of_notMem_mark h [] path
  rw [movesOf, splitString_some (List.cons_ne_nil _ _) hcut]
  rfl

/-- The names in front of a path are gone into. -/
theorem movesOf_flatMap {names : List FileName} (h : ∀ name ∈ names, ProperName name)
    (path : List UInt8) :
    movesOf (names.flatMap (· ++ [slash]) ++ path) = names.map .into ++ movesOf path := by
  induction names with
  | nil => rfl
  | cons name names ih =>
    have hname := h name List.mem_cons_self
    have hrest := ih fun other hother => h other (List.mem_cons_of_mem name hother)
    rw [List.flatMap_cons, List.append_assoc, List.append_assoc, List.singleton_append,
      movesOf_cons hname.slash, hname.move, hrest]
    rfl

theorem location_into (start names : List FileName) (moves : List (Move FileName)) :
    location start (names.map .into ++ moves) = location (start ++ names) moves := by
  induction names generalizing start with
  | nil => rw [List.append_nil]; rfl
  | cons name names ih =>
    have hstep := ih (start ++ [name])
    rw [List.append_assoc] at hstep
    exact hstep

theorem noNul_flatMap {names : List FileName} (h : ∀ name ∈ names, ProperName name) :
    (0 : UInt8) ∉ names.flatMap (· ++ [slash]) := by
  intro hmem
  obtain ⟨name, hname, hzero⟩ := List.mem_flatMap.mp hmem
  rcases List.mem_append.mp hzero with hin | hslash
  · exact (h name hname).noNul hin
  · exact absurd (List.mem_singleton.mp hslash) (by decide)

namespace FileSystem

variable {fs : FileSystem} {cwd : List FileName} {names : List FileName} {path : List UInt8}
  {place : List FileName} {content : List UInt8}

/-- **Where the file of a path stands**: below these names, the rest of the path leads there. -/
theorem regularFile_eq_some (hne : names ≠ []) (hnames : ∀ name ∈ names, ProperName name)
    (h : fs.regularFile cwd (names.flatMap (· ++ [slash]) ++ path) = some (place, content)) :
    place = location (cwd ++ names) (movesOf (cStr path)) := by
  obtain ⟨found, hresolve, hfile⟩ := Option.bind_eq_some_iff.mp h
  obtain ⟨_, -, heq⟩ := Option.map_eq_some_iff.mp hfile
  obtain rfl : found = place := congrArg Prod.fst heq
  obtain ⟨first, others, rfl⟩ := List.exists_cons_of_ne_nil hne
  have hfirst := hnames first List.mem_cons_self
  obtain ⟨c, cs, rfl⟩ : ∃ c cs, first = c :: cs := by
    refine List.exists_cons_of_ne_nil fun hnil => ?_
    have hmove := hfirst.move
    rw [hnil] at hmove
    cases hmove
  have hhead : c ≠ slash := fun hc => hfirst.slash (hc ▸ List.mem_cons_self)
  rw [resolve, cStr_append (noNul_flatMap hnames)] at hresolve
  rw [if_neg (by simp), if_neg (by simpa using hhead), movesOf_flatMap hnames] at hresolve
  exact (follow_eq_some hresolve).trans (location_into cwd _ _)

end FileSystem

/-! ## The files that are sent -/

/-- The path of a file below some folders. -/
def pathBelow (names : List FileName) (path : List UInt8) : List UInt8 :=
  names.flatMap (· ++ [slash]) ++ path

theorem text_slash (folder : FolderPath) (path : List UInt8) :
    folder.text ++ slash :: path = pathBelow folder.names path := by
  rw [FolderPath.text, pathBelow, FolderPath.names, List.flatMap_append, List.flatMap_singleton]
  simp only [List.append_assoc, List.singleton_append]

/-- A path that is opened stays below these folders: there is no file, or the way up that is left in
the path is gone back down. -/
def PathStays (fs : FileSystem) (cwd names rest : List FileName) (path : List UInt8) : Prop :=
  fs.regularFile cwd (pathBelow names path) = none ∨
    (cwd ++ names).drop ((cwd ++ names).length - (normal (movesOf (cStr path))).1) ++ rest <+:
      (normal (movesOf (cStr path))).2

theorem pathStays_iff {fs : FileSystem} {cwd names rest : List FileName} {path : List UInt8}
    (hne : names ≠ []) (hnames : ∀ name ∈ names, ProperName name) :
    PathStays fs cwd names rest path ↔
      ∀ place, (fs.regularFile cwd (pathBelow names path)).map (·.1) = some place →
        cwd ++ names ++ rest <+: place := by
  rw [PathStays, ← prefix_location_iff]
  cases hfile : fs.regularFile cwd (pathBelow names path) with
  | none => exact iff_of_true (.inl rfl) (by rintro place ⟨⟩)
  | some found =>
    obtain ⟨place, content⟩ := found
    have hplace := FileSystem.regularFile_eq_some hne hnames hfile
    rw [← hplace]
    constructor
    · rintro h _ ⟨⟩
      exact h.resolve_left (by rintro ⟨⟩)
    · exact fun h => .inr (h place rfl)

namespace RouteController

variable {ρ : Type*} (controller : RouteController ρ) (setup : RouteSetup ρ)
  (dir dashboard : FolderPath) (request : HttpRequest)

/-- The server with a web root and a dashboard folder. -/
def serving : RouteController ρ := { controller with dashboardFolder := dashboard.text }

def servingFrom : RouteSetup ρ := { setup with dirPath := dir.text }

/-- **A file that is read for a URL lies in its folder**: in the web root where a group sends it, in
the dashboard folder where that is looked into. -/
structure ServedInside : Prop where
  group : ∀ place, (HttpRequest.sendFileFromDirectory setup.fileSystem setup.cwd dir.text
      request.url).file = some place → setup.cwd ++ dir.names <+: place
  dashboard : ∀ place, ((controller.serving dashboard).checkSendFileFromDashboardFolder
      (servingFrom setup dir) request).file = some place →
        setup.cwd ++ (dir.names ++ dashboard.names) <+: place

/-- **The condition.**  The URL goes back down where it has come up; the last name of the dashboard
folder and the URL are one text. -/
structure UrlStays : Prop where
  group : PathStays setup.fileSystem setup.cwd dir.names [] request.url
  dashboard : PathStays setup.fileSystem setup.cwd (dir.names ++ dashboard.parents)
    [dashboard.last] (dashboard.last ++ request.url)

end RouteController

namespace HttpRequest

variable {fs : FileSystem} {cwd : List FileName} {dirPath url : List UInt8}

/-- What is sent is what the path names. -/
theorem file_sendFileFromDirectory (h : dirPath ≠ []) :
    (sendFileFromDirectory fs cwd dirPath url).file =
      (fs.regularFile cwd (dirPath ++ slash :: url)).map (·.1) := by
  rw [sendFileFromDirectory, if_neg h]
  cases fs.regularFile cwd (dirPath ++ slash :: url) with
  | none => rfl
  | some found => rfl

end HttpRequest

namespace FolderPath

variable (folder : FolderPath)

theorem text_ne_nil : folder.text ≠ [] := by
  intro hnil
  have hmove := folder.proper_last.move
  rw [(List.append_eq_nil_iff.mp hnil).2] at hmove
  cases hmove

theorem names_ne_nil : folder.names ≠ [] := List.append_ne_nil_of_right_ne_nil _ (List.cons_ne_nil _ _)

theorem proper_names : ∀ name ∈ folder.names, ProperName name := fun name hname =>
  (List.mem_append.mp hname).elim (folder.proper_parents name) fun hlast =>
    List.mem_singleton.mp hlast ▸ folder.proper_last

end FolderPath

namespace RouteController

variable {ρ : Type*}

/-- What the dashboard handler sends is what its path names. -/
theorem file_checkSendFile (controller : RouteController ρ) (setup : RouteSetup ρ)
    (dir dashboard : FolderPath) (request : HttpRequest) :
    ((controller.serving dashboard).checkSendFileFromDashboardFolder
        (servingFrom setup dir) request).file =
      (setup.fileSystem.regularFile setup.cwd
        (pathBelow (dir.names ++ dashboard.parents) (dashboard.last ++ request.url))).map (·.1) := by
  have hpath : dir.text ++ slash :: (dashboard.text ++ request.url) =
      pathBelow (dir.names ++ dashboard.parents) (dashboard.last ++ request.url) := by
    rw [text_slash, pathBelow, pathBelow, FolderPath.text, List.flatMap_append]
    simp only [List.append_assoc]
  have hfolder : (controller.serving dashboard).dashboardFolder ≠ [] := dashboard.text_ne_nil
  have hsent : (HttpRequest.sendFileFromDirectory setup.fileSystem setup.cwd dir.text
      (dashboard.text ++ request.url)).file = _ :=
    HttpRequest.file_sendFileFromDirectory dir.text_ne_nil
  rw [hpath] at hsent
  rw [checkSendFileFromDashboardFolder]
  split_ifs with hexists
  · exact hsent
  · have hmissing : (setup.fileSystem.regularFile setup.cwd
        (dir.text ++ slash :: (dashboard.text ++ request.url))).isSome = false :=
      Bool.eq_false_iff.mpr fun hsome => hexists ⟨hfolder, hsome⟩
    rw [hpath, Option.isSome_eq_false_iff, Option.isNone_iff_eq_none] at hmissing
    rw [hmissing]
    rfl

/-- **Which URLs stay in the folders.** -/
theorem servedInside_iff (controller : RouteController ρ) (setup : RouteSetup ρ)
    (dir dashboard : FolderPath) (request : HttpRequest) :
    ServedInside controller setup dir dashboard request ↔ UrlStays setup dir dashboard request := by
  have hsent : (HttpRequest.sendFileFromDirectory setup.fileSystem setup.cwd dir.text
      request.url).file = _ :=
    HttpRequest.file_sendFileFromDirectory dir.text_ne_nil
  have hgroup : PathStays setup.fileSystem setup.cwd dir.names [] request.url ↔ _ :=
    pathStays_iff dir.names_ne_nil dir.proper_names
  have hproper : ∀ name ∈ dir.names ++ dashboard.parents, ProperName name := fun name hname =>
    (List.mem_append.mp hname).elim (dir.proper_names name) (dashboard.proper_parents name)
  have hdashboard : PathStays setup.fileSystem setup.cwd (dir.names ++ dashboard.parents)
      [dashboard.last] (dashboard.last ++ request.url) ↔ _ :=
    pathStays_iff (List.append_ne_nil_of_left_ne_nil dir.names_ne_nil _) hproper
  have hroot : setup.cwd ++ (dir.names ++ dashboard.parents) ++ [dashboard.last] =
      setup.cwd ++ (dir.names ++ dashboard.names) := by
    simp only [FolderPath.names, List.append_assoc]
  rw [text_slash] at hsent
  rw [List.append_nil] at hgroup
  rw [hroot] at hdashboard
  constructor
  · intro h
    refine ⟨hgroup.mpr fun place hplace => h.group place ?_,
      hdashboard.mpr fun place hplace => h.dashboard place ?_⟩
    · rw [hsent]
      exact hplace
    · rw [file_checkSendFile]
      exact hplace
  · intro h
    refine ⟨fun place hplace => hgroup.mp h.group place ?_,
      fun place hplace => hdashboard.mp h.dashboard place ?_⟩
    · rw [← hsent]
      exact hplace
    · rw [← file_checkSendFile]
      exact hplace

end RouteController

/-! ## A file beside the web root -/

/-- The folder of one name. -/
def folderOf (name : FileName) (h : ProperName name) : FolderPath :=
  ⟨[], name, fun _ hmem => absurd hmem List.not_mem_nil, h⟩

def webData : FolderPath := folderOf (text "web_data") ⟨by decide, by decide, by decide⟩

/-- `CLIENT_DEPLOY_FOLDER`. -/
def clientDeployFolder : FolderPath where
  parents := [text "vuejs_ui"]
  last := text "dist"
  proper_parents := by
    intro name hname
    rw [List.mem_singleton.mp hname]
    exact ⟨by decide, by decide, by decide⟩
  proper_last := ⟨by decide, by decide, by decide⟩

/-- The directory of the program, with the web root and a file beside it. -/
def deployed : FileSystem where
  isDirectory place := place <+: [text "srv", text "web_data", text "libraries"]
  file place := if place = [text "srv", text "config.json"] then some [] else none
  directory_root := by decide
  directory_parent place name h :=
    decide_eq_true ((List.prefix_append place [name]).trans (of_decide_eq_true h))
  file_parent place name h := by
    have hplace : place ++ [name] = [text "srv"] ++ [text "config.json"] :=
      of_not_not fun hne => h (if_neg hne)
    rw [(List.append_inj' hplace rfl).1]
    decide
  file_or_directory place h := by
    have hplace : place = [text "srv", text "config.json"] := of_not_not fun hne => h (if_neg hne)
    rw [hplace]
    decide

/-- The setup of the program in that directory. -/
def deployedSetup : RouteSetup ℕ where
  doubles := ⟨fun _ => [], fun _ => none⟩
  handle _ _ := .throws
  badRequestGetter _ := HttpRequest.notFoundMessage
  fileSystem := deployed
  cwd := [text "srv"]
  dirPath := []

/-- A client asks for a file beside the web root, through the group `libraries`. -/
theorem config_served :
    ¬ RouteController.ServedInside (⟨[], fun _ _ => none, []⟩ : RouteController ℕ) deployedSetup
      webData clientDeployFolder
      ⟨.get, [], text "/libraries/../../config.json", [], fun _ => none, fun _ => none, [], .null⟩ := by
  intro h
  have hfile : (HttpRequest.sendFileFromDirectory deployed [text "srv"] webData.text
      (text "/libraries/../../config.json")).file = some [text "srv", text "config.json"] := by
    decide +kernel
  exact absurd (h.group _ hfile) (by decide)

end TradingEngine
