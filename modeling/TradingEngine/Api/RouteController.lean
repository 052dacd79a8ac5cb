import TradingEngine.Http.ServerRequest
import TradingEngine.Http.ServerResponse
import TradingEngine.Machinery.Paths

/-!
# Api/RouteController — which handler answers a request, and which file is sent

The handlers are the program's own: a handler has a name, and `handle` says what it comes to on a
request.  `route_group_map` is the list of its entries in the order it is iterated in.  Files are
read from a tree without links, which does not change while a request is answered.
-/

namespace TradingEngine

open Ascii Paths

/-! ## Files -/

/-- The name of a file or of a directory. -/
abbrev FileName := List UInt8

/-- 47, the slash. -/
def slash : UInt8 := 47

/-- What the file system makes of a part of a path; an empty part stays, as a dot does. -/
def moveOf (part : FileName) : Move FileName :=
  if part = [] ∨ part = [dot] then .stay else if part = [dot, dot] then .up else .into part

/-- The moves of a path. -/
def movesOf (path : List UInt8) : List (Move FileName) := (splitString [slash] path).map moveOf

/-- A file system: what is there stands in a directory, and no regular file is one. -/
structure FileSystem where
  isDirectory : List FileName → Bool
  file : List FileName → Option (List UInt8)
  directory_root : isDirectory [] = true
  directory_parent : ∀ place name, isDirectory (place ++ [name]) = true → isDirectory place = true
  file_parent : ∀ place name, file (place ++ [name]) ≠ none → isDirectory place = true
  file_or_directory : ∀ place, file place ≠ none → isDirectory place = false

namespace FileSystem

variable (fs : FileSystem) (cwd : List FileName)

/-- The place a path names.  The system calls read the path up to a NUL, and an empty one names
nothing. -/
def resolve (path : List UInt8) : Option (List FileName) :=
  let path := cStr path
  if path = [] then none
  else follow fs.isDirectory (if path.head? = some slash then [] else cwd) (movesOf path)

/-- The regular file that a path names, and its content. -/
def regularFile (path : List UInt8) : Option (List FileName × List UInt8) :=
  (fs.resolve cwd path).bind fun place => (fs.file place).map fun content => (place, content)

end FileSystem

/-- A response, and the file that was read for it. -/
structure SentFile where
  response : HttpResponse
  file : Option (List FileName)

namespace HttpRequest

/-- `get_request_method`: `UNKNOWN` for the methods without a class of their own. -/
def getRequestMethod (request : HttpRequest) : Option RequestMethod :=
  match request.method with
  | .get => some .get
  | .post => some .post
  | .put => some .put
  | .delete => some .delete
  | _ => none

/-- `check_file_type`. -/
def checkFileType (name : List UInt8) : ResponseFileType :=
  if (find (text ".js") name).isSome then .js
  else if (find (text ".css") name).isSome then .css
  else if (find (text ".woff2") name).isSome then .woff2
  else .noneType

variable (fs : FileSystem) (cwd : List FileName)

/-- `check_is_file_path_exist`. -/
def checkIsFilePathExist (dirPath filePath : List UInt8) : Bool :=
  (fs.regularFile cwd (dirPath ++ slash :: filePath)).isSome

/-- `send_file_from_directory`, with no other name for the file. -/
def sendFileFromDirectory (dirPath url : List UInt8) : SentFile :=
  if dirPath = [] then ⟨notFoundMessage, none⟩
  else
    match fs.regularFile cwd (dirPath ++ slash :: url) with
    | none => ⟨notFoundMessage, none⟩
    | some (place, content) => ⟨⟨.ok200, .tree .null, content, false, checkFileType url, []⟩, place⟩

variable (doubles : DoubleText)

/-- A response with a `Json`. -/
def jsonResponse (code : ResponseStatusCode) (json : Json) : HttpResponse :=
  ⟨code, .tree .null, json.write doubles, true, .noneType, []⟩

/-- `response_bad_request_400` and `response_internal_error_500`. -/
def errorResponse (code : ResponseStatusCode) (msg : List UInt8) : HttpResponse :=
  jsonResponse doubles code (.object [(text "data", .string []), (text "msg", .string msg),
    (text "status_code", .int code.code), (text "error", .bool true)])

def responseBadRequest400 (error : List UInt8) : HttpResponse :=
  errorResponse doubles .badRequest400 error

def responseInternalError500 : HttpResponse :=
  errorResponse doubles .internalServerError500 (text "Internal Server Error")

end HttpRequest

/-! ## Routes -/

/-- What a handler comes to: a response, an `ApiException`, or another exception. -/
inductive Handling
  | responds (response : HttpResponse)
  | apiException (msg : List UInt8)
  | throws

/-- The code of the response is 404. -/
def Handling.isNotFound : Handling → Bool
  | .responds response => response.responseCode = .notFound404
  | _ => false

/-- `RouteController`, with the handlers of its routes named by `ρ`. -/
structure RouteController (ρ : Type*) where
  routeGroupMap : List (List UInt8 × (Option RequestMethod → Option ρ))
  routeMap : List UInt8 → Option RequestMethod → Option ρ
  dashboardFolder : List UInt8

/-- What the handlers and the server are made of: `handle` runs a handler, `badRequestGetter` is the
404 page. -/
structure RouteSetup (ρ : Type*) where
  doubles : DoubleText
  handle : ρ → HttpRequest → Handling
  badRequestGetter : HttpRequest → HttpResponse
  fileSystem : FileSystem
  cwd : List FileName
  dirPath : List UInt8

namespace RouteController

variable {ρ : Type*} (controller : RouteController ρ) (setup : RouteSetup ρ)

/-- The URL has the name of the group in it, and the group has a handler for the method. -/
def groupHandler (request : HttpRequest)
    (group : List UInt8 × (Option RequestMethod → Option ρ)) : Option ρ :=
  if (find group.1 request.url).isSome then group.2 request.getRequestMethod else none

/-- The handler that `check_handle_by_route_group` calls. -/
def handlerByRouteGroup (request : HttpRequest) : Option ρ :=
  controller.routeGroupMap.findSome? (groupHandler request)

/-- The handler that `check_handle_by_route` calls. -/
def handlerByRoute (request : HttpRequest) : Option ρ :=
  controller.routeMap request.url request.getRequestMethod

/-- `check_handle_by_route_group` and `check_handle_by_route`: the call of a handler, or a 404. -/
def handled (request : HttpRequest) : Option ρ → Handling
  | none => .responds (HttpRequest.jsonResponse setup.doubles .notFound404 .null)
  | some handler => setup.handle handler request

/-- `check_send_file_from_dashboard_folder`. -/
def checkSendFileFromDashboardFolder (request : HttpRequest) : SentFile :=
  let filePath := controller.dashboardFolder ++ request.url
  if controller.dashboardFolder ≠ [] ∧
      HttpRequest.checkIsFilePathExist setup.fileSystem setup.cwd setup.dirPath filePath then
    HttpRequest.sendFileFromDirectory setup.fileSystem setup.cwd setup.dirPath filePath
  else ⟨HttpRequest.jsonResponse setup.doubles .notFound404 .null, none⟩

/-- The handlers that `handle_request_base_on_route` calls, in order. -/
def calledHandlers (request : HttpRequest) : List ρ :=
  (controller.handlerByRouteGroup request).toList ++
    if (handled setup request (controller.handlerByRouteGroup request)).isNotFound then
      (controller.handlerByRoute request).toList
    else []

/-- How the last call has ended. -/
def lastHandled (request : HttpRequest) : Handling :=
  let byGroup := handled setup request (controller.handlerByRouteGroup request)
  if byGroup.isNotFound then handled setup request (controller.handlerByRoute request) else byGroup

/-- `handle_request_base_on_route`. -/
def handleRequestBaseOnRoute (request : HttpRequest) : HttpResponse :=
  match controller.lastHandled setup request with
  | .apiException msg => HttpRequest.responseBadRequest400 setup.doubles msg
  | .throws => HttpRequest.responseInternalError500 setup.doubles
  | .responds response =>
    if response.responseCode ≠ .notFound404 then response
    else
      let sent := (controller.checkSendFileFromDashboardFolder setup request).response
      if sent.responseCode ≠ .notFound404 then sent else setup.badRequestGetter request

end RouteController

end TradingEngine
