import ShiftReduce.Service.Server

/-!
# The server keeps its promises

The plain server is a framework as the service expects it
(`ShiftReduce.Service.isDocumented_server`): among routes with different paths the one of the path
that is posted to is found, and its view answers.
-/

namespace ShiftReduce.Service

open Json

theorem writeFields_ofFields (fields : Fields) : writeFields (.ofFields fields) = .ok fields := by
  induction fields with
  | nil => rfl
  | cons f fields ih =>
    change (writeFields (.ofFields fields)).map _ = _
    rw [ih]
    rfl

namespace Resource

variable {ι : Type} {routes : List (Route ι)} {route : Route ι} {path : List Char}

/-- **The route of a path is found** if no other route has the path. -/
theorem ofPath?_of_mem (hnodup : (routes.map Route.path).Nodup) (hmem : route ∈ routes)
    (hpath : route.path = String.ofList ('/' :: path)) :
    ofPath? routes path = some (.route route) := by
  have hfound : routes.find? (fun route => route.path = String.ofList ('/' :: path)) =
      some route := by
    induction routes with
    | nil => simp at hmem
    | cons first routes ih =>
      obtain ⟨hfirst, hnodup⟩ := List.nodup_cons.mp hnodup
      rcases List.mem_cons.mp hmem with rfl | hmem
      · rw [List.find?_cons_of_pos (by simpa using hpath)]
      · have hne : first.path ≠ String.ofList ('/' :: path) := fun h =>
          hfirst (h.trans hpath.symm ▸ List.mem_map_of_mem hmem)
        rw [List.find?_cons_of_neg (by simpa using hne), ih hnodup hmem]
  rw [ofPath?, hfound]

end Resource

namespace Request

variable {routes : List (Route Request)} {route : Route Request} {r : Request}
  {response : Response} {message : String}

theorem json?_of_ne_tooDeep (h : r.read ≠ .error .tooDeep) :
    r.json? = .ok (r.read.toOption.getD .null) := by
  unfold json?
  cases hread : r.read with
  | ok v => rfl
  | error e =>
    cases e with
    | malformed => rfl
    | tooDeep => exact absurd hread h

theorem serve_of_posts (hnodup : (routes.map Route.path).Nodup) (hmem : route ∈ routes)
    (hpost : "POST" ∈ route.methods) (h : r.Posts route.path) :
    r.serve routes = (Resource.route route).answer "POST" r := by
  obtain ⟨hmethod, htarget, hslash⟩ := h
  have hpath : route.path = String.ofList ('/' :: route.path.toList.tail) := by
    rw [← String.toList_inj, String.toList_ofList]
    cases hchars : route.path.toList with
    | nil => simp [hchars] at hslash
    | cons c rest => simp_all
  rw [serve]
  simp only [htarget, hmethod, Resource.ofPath?_of_mem hnodup hmem hpath]
  simp [Resource.methods, hpost]

theorem serve_of_ok (hnodup : (routes.map Route.path).Nodup) (hmem : route ∈ routes)
    (hpost : "POST" ∈ route.methods) (h : r.Posts route.path)
    (hview : route.view r = .ok response) :
    r.serve routes = response := by
  rw [serve_of_posts hnodup hmem hpost h]
  simp [Resource.answer, hview]

theorem serve_of_error (hnodup : (routes.map Route.path).Nodup) (hmem : route ∈ routes)
    (hpost : "POST" ∈ route.methods) (h : r.Posts route.path)
    (hview : route.view r = .error message) : r.serve routes = .bare 500 := by
  rw [serve_of_posts hnodup hmem hpost h]
  simp [Resource.answer, hview]

end Request

section Server

variable (r : server.Incoming)

theorem content_server : server.content r = Except.toOption (Request.read r) := by
  simp only [server]

theorem overflows_server : server.Overflows r ↔ Request.read r = .error .tooDeep := by
  simp only [server]

theorem posts_server (path : String) : server.Posts r path ↔ Request.Posts r path := by
  simp only [server]

theorem json?_server : server.json? r = Request.json? r := by
  simp only [server]

theorem jsonify?_server (fields : Fields) :
    server.jsonify? (.ofFields fields) = .ok (.obj fields) := by
  simp only [server, writeFields_ofFields]
  rfl

theorem serve_server (routes : List (Route server.Incoming)) :
    server.serve routes r = Request.serve routes r := by
  simp only [server]

end Server

/-- **The server is documented**: it does what the service relies on. -/
theorem isDocumented_server : server.IsDocumented where
  json r hdepth := by
    rw [overflows_server] at hdepth
    rw [content_server, json?_server]
    exact Request.json?_of_ne_tooDeep hdepth
  jsonify fields := ⟨fields, jsonify?_server fields, fun _ => rfl⟩
  serve_of_ok routes hnodup route hmem hpost r response h hview := by
    rw [posts_server] at h
    rw [serve_server]
    exact Request.serve_of_ok hnodup hmem hpost h hview
  serve_of_error routes hnodup route hmem hpost r message h hview := by
    rw [posts_server] at h
    rw [serve_server, Request.serve_of_error hnodup hmem hpost h hview]
    exact ⟨rfl, rfl⟩

end ShiftReduce.Service
