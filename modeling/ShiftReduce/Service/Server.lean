import ShiftReduce.Json.Reader
import ShiftReduce.Service.Response
import ShiftReduce.Service.Target
import ShiftReduce.Text.Encoding

/-!
# A server

A plain web framework. The content of a request counts only if its type is JSON; any other content,
and one that is no JSON text, stands for null. Content that opens too many arrays and objects inside
each other is an exception.

A path names a route or a file, but there are no files to hand out. Any other path names nothing,
unless it does with its slashes merged; then the request is sent on. What a path names can be asked
for by some methods only, and never over a socket. A view that fails gives a response without a
body.
-/

namespace ShiftReduce.Service

open Json

/-- A request. -/
structure Request where
  /-- The method. -/
  method : String
  /-- The URL reference of what it is directed at. -/
  target : String
  /-- The type of the content, empty if there is none. -/
  contentType : String
  /-- The bytes of the content. -/
  content : List UInt8

/-! ### Content -/

/-- The text without the spaces and tabs at either end. -/
def trimSpaces (s : List Char) : List Char :=
  let trimFront (s : List Char) : List Char := s.dropWhile fun c => c = ' ' || c = '\t'
  (trimFront (trimFront s).reverse).reverse

/-- Whether a content type, its parameters aside, is JSON. -/
def isJson (contentType : String) : Bool :=
  let type := (trimSpaces (contentType.toList.takeWhile (· ≠ ';'))).map Char.toLower
  let general := "application/".toList
  type == "application/json".toList || (general.isPrefixOf type && "+json".toList.isSuffixOf type)

/-- The greatest number of arrays and objects that may be open in a body. -/
def maxDepth : Nat := 981

/-- The value in the content of a request. -/
def Request.read (r : Request) : Except Unreadable Value :=
  if isJson r.contentType then
    match Text.decode? r.content with
    | some text => Json.read maxDepth text
    | none => .error .malformed
  else .error .malformed

/-- The value in the content of a request, null if it is no JSON, or the message of an exception if
it is too deep. -/
def Request.json? (r : Request) : Except String Value :=
  match r.read with
  | .ok v => .ok v
  | .error .malformed => .ok .null
  | .error .tooDeep => .error "maximum recursion depth exceeded"

/-- The fields of a report of values alone, or the message of an exception. -/
def writeFields : Report → Except String Fields
  | [] => .ok []
  | (name, .value v) :: rest => (writeFields rest).map ((name, v) :: ·)
  | _ => .error "Object is not JSON serializable"

/-! ### Resources -/

/-- What a path can name. -/
inductive Resource (ι : Type) where
  /-- A route. -/
  | route (route : Route ι)
  /-- A file to hand out. -/
  | file

namespace Resource

variable {ι : Type}

/-- The folder that files are asked for in. -/
def folder : List Char := "static/".toList

/-- Whether the text can be the path of a file inside the folder: it begins with no slash and
holds no line break behind its first character. -/
def isFilePath : List Char → Bool
  | [] => false
  | c :: rest => c != '/' && !rest.contains '\n'

/-- The resource that a path without its first slash names. -/
def ofPath? (routes : List (Route ι)) (path : List Char) : Option (Resource ι) :=
  match routes.find? fun route => route.path = String.ofList ('/' :: path) with
  | some found => some (route found)
  | none =>
    if folder.isPrefixOf path && isFilePath (path.drop folder.length) then some file else none

/-- The methods by which a resource can be asked for. -/
def methods : Resource ι → List String
  | route found => found.methods ++ ["OPTIONS"]
  | file => ["GET", "HEAD", "OPTIONS"]

/-- The capitals of a letter, as far as the name of a method can hold them. Four letters outside
ASCII have such capitals too. -/
def capitals : Char → List Char
  | 'ı' => ['I']
  | 'ſ' => ['S']
  | 'ﬅ' | 'ﬆ' => ['S', 'T']
  | c => [c.toUpper]

/-- The response to a request for a resource by one of its methods. Asking for the options is
answered without a body, and there is no file. -/
def answer (resource : Resource ι) (method : String) (r : ι) : Response :=
  if method = "OPTIONS" then .bare 200
  else
    match resource with
    | route found =>
      match found.view r with
      | .ok response => response
      | .error _ => .bare 500
    | file => .bare 404

end Resource

/-- The path with slashes in a row made one. -/
def mergeSlashes : List Char → List Char
  | '/' :: '/' :: rest => mergeSlashes ('/' :: rest)
  | c :: rest => c :: mergeSlashes rest
  | [] => []

/-! ### Serving -/

namespace Request

/-- The method in capitals. -/
def capitalMethod (r : Request) : String :=
  String.ofList (r.method.toList.flatMap Resource.capitals)

/-- The response to a request, given the routes. If a path names nothing, but does with its slashes
merged, the request is sent on to that path. -/
def serve (routes : List (Route Request)) (r : Request) : Response :=
  let target := Target.read r.target
  let allow (resource : Resource Request) (answer : Response) : Response :=
    if r.capitalMethod ∉ resource.methods then .bare 405
    else if target.wantsSocket then .bare 400
    else answer
  if !target.hasServer then .bare 400
  else
    match Resource.ofPath? routes target.path,
      Resource.ofPath? routes (mergeSlashes target.path) with
    | some resource, _ => allow resource (resource.answer r.capitalMethod r)
    | none, some resource => allow resource (.bare 308)
    | none, none => .bare 404

/-- A request posts to a path: this is what its method and its target come to. -/
def Posts (r : Request) (path : String) : Prop :=
  r.capitalMethod = "POST" ∧
    Target.read r.target = ⟨true, false, path.toList.tail⟩ ∧ path.toList.head? = some '/'

end Request

/-- The plain web framework. -/
def server : Framework where
  Incoming := Request
  content r := r.read.toOption
  Overflows r := r.read = .error .tooDeep
  Posts := Request.Posts
  json? := Request.json?
  jsonify? report := (writeFields report).map .obj
  serve := Request.serve

end ShiftReduce.Service
