import ShiftReduce.Session.Report

/-!
# Web frameworks

The service is written for a web framework and leaves to it what every web application needs: the
framework reads the content of a request as JSON, finds the view for a request, writes a report as
JSON, and makes do when a view fails. A framework is no part of the service, so it is a parameter
here, and what the service may count on is what the framework's documentation promises
(`ShiftReduce.Service.Framework.IsDocumented`).
-/

namespace ShiftReduce.Service

open Json

/-- A response. -/
structure Response where
  /-- The status. -/
  status : Nat
  /-- The JSON body, if there is one. -/
  body : Option Value
  /-- The lines logged. -/
  log : List String

/-- A response without a body. -/
def Response.bare (status : Nat) : Response :=
  ⟨status, none, []⟩

/-- A path with the view that answers requests for it. -/
structure Route (ι : Type) where
  /-- The path. -/
  path : String
  /-- The methods that requests for it may have. -/
  methods : List String
  /-- The response to a request, or the message of an exception that the view lets through. -/
  view : ι → Except String Response

/-- A web framework, as far as the service uses it. -/
structure Framework where
  /-- The requests that come in. -/
  Incoming : Type
  /-- The JSON value that a request brings; none if it has no content or content that is no JSON,
  by its type or by its text. -/
  content : Incoming → Option Value
  /-- The content of a request has arrays and objects too deep inside each other. -/
  Overflows : Incoming → Prop
  /-- A request posts to a path. -/
  Posts : Incoming → String → Prop
  /-- The value that a view is given for the content of a request, or the message of an
  exception. -/
  json? : Incoming → Except String Value
  /-- A report written as JSON, or the message of an exception. -/
  jsonify? : Report → Except String Value
  /-- The response to a request, given the routes of the application. -/
  serve : List (Route Incoming) → Incoming → Response

/-- **The framework does what its documentation promises.** -/
structure Framework.IsDocumented (F : Framework) : Prop where
  /-- A view is given the value that a request brings, and null if it brings none. -/
  json : ∀ r, ¬F.Overflows r → F.json? r = .ok ((F.content r).getD .null)
  /-- A report of values is written as an object with the same fields. -/
  jsonify : ∀ fields, ∃ shown, F.jsonify? (.ofFields fields) = .ok (.obj shown) ∧
    ∀ name, shown.lookup name = fields.lookup name
  /-- What is posted to the path of a route is answered by its view. -/
  serve_of_ok : ∀ routes, (routes.map Route.path).Nodup → ∀ route ∈ routes,
    "POST" ∈ route.methods → ∀ r response, F.Posts r route.path → route.view r = .ok response →
    F.serve routes r = response
  /-- If the view fails, the response says so by its status and has no JSON body. -/
  serve_of_error : ∀ routes, (routes.map Route.path).Nodup → ∀ route ∈ routes,
    "POST" ∈ route.methods → ∀ r message, F.Posts r route.path → route.view r = .error message →
    (F.serve routes r).status = 500 ∧ (F.serve routes r).body = none

end ShiftReduce.Service
