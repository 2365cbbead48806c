import ShiftReduce.Proofs.Service.Reply
import ShiftReduce.Proofs.Service.Server

/-!
# The statuses of responses

What becomes of a posted body can be told from the body alone, whatever framework the service runs
on as long as it does what its documentation promises (`ShiftReduce.Service.status_respond`). A body
that breaks the stage fails, one that gives a session which gets as far as it is asked succeeds
(`ShiftReduce.Service.Succeeds`), and every other one is refused. A refusal always says why, and no
response shows what a session works with.
-/

namespace ShiftReduce.Service

open Json

/-- **A response explains itself**: a refusal has a body, and every body is an object, which says
what went wrong unless all went well, and shows nothing of what a session works with. -/
structure Explains (r : Response) : Prop where
  /-- A refusal has a body. -/
  body_ne_none : r.status = 400 → r.body ≠ none
  /-- Every body is an object that says enough and not too much. -/
  exists_fields : ∀ body, r.body = some body → ∃ fields, body = .obj fields ∧
    (r.status ≠ 200 → ∃ message, fields.lookup "error" = some (.str message)) ∧
    ∀ name ∈ internalKeys, fields.lookup name = none

/-! ### Sending -/

section Sending

variable {F : Framework} {reply : Reply} {opening : List String}

/-- **A presentable reply is sent** as a response that explains itself. -/
theorem exists_send (hF : F.IsDocumented) (h : reply.IsPresentable) :
    ∃ response, F.send reply = .ok response ∧ response.status = reply.status ∧
      Explains response := by
  obtain ⟨fields, hfields⟩ := h.exists_fields
  obtain ⟨shown, hshown, hlookup⟩ := hF.jsonify fields
  refine ⟨⟨reply.status, some (.obj shown), reply.log⟩, ?_, rfl, by simp, ?_⟩
  · rw [Framework.send, hfields, hshown]
    rfl
  · intro body hbody
    obtain rfl := Option.some.inj hbody
    have hpayload : ∀ name, reply.payload.lookup name = (shown.lookup name).map .value := by
      simp [hfields, hlookup]
    refine ⟨shown, rfl, fun hstatus => ?_, fun name hname => ?_⟩
    · obtain ⟨message, herror⟩ := h.error hstatus
      rw [hpayload, Option.map_eq_some_iff] at herror
      obtain ⟨v, hv, heq⟩ := herror
      exact ⟨message, by rw [hv, Entry.value.inj heq]⟩
    · simpa [hpayload] using h.internal name hname

theorem exists_guarded_of_ok (hF : F.IsDocumented) (h : reply.IsPresentable) :
    ∃ response, F.guarded opening (.ok reply) = .ok response ∧ response.status = reply.status ∧
      Explains response := by
  obtain ⟨response, hsend, hresponse⟩ := exists_send hF (h.withLog (opening ++ reply.log))
  refine ⟨response, ?_, hresponse⟩
  simp only [Framework.guarded, hsend]

theorem exists_guarded_of_error (hF : F.IsDocumented) (message : String) :
    ∃ response, F.guarded opening (.error message) = .ok response ∧ response.status = 500 ∧
      Explains response :=
  exists_send hF (isPresentable_unexpected opening message)

end Sending

/-! ### Views -/

section Views

variable {F : Framework} {stage : Stage} {r : F.Incoming} {v : Value} {response : Response}
  {source : Source} {session : Session} {input : String} {e : BadRequest}

theorem work_of_session? (h : source.session? = some session) :
    source.work stage input = work stage session input := by
  cases source with
  | rows l =>
    obtain rfl := Option.some.inj h
    rfl
  | script text =>
    obtain rfl := Option.some.inj h
    rfl
  | noScript kind => exact absurd h (by simp [Source.session?])

theorem view_of_badRow {m : Row.Malformed} (hv : F.json? r = .ok v)
    (h : readBody stage v = .error (.badRow m)) : F.view stage r = .error m.message := by
  simp only [Framework.view, hv, bind, Except.bind, h]

theorem view_of_error (hv : F.json? r = .ok v) (h : readBody stage v = .error e)
    (he : ∀ m, e ≠ .badRow m) : F.view stage r = F.send (refuse e.message) := by
  simp only [Framework.view, hv, bind, Except.bind, h]

theorem view_of_ok (hv : F.json? r = .ok v) (h : readBody stage v = .ok (source, input)) :
    F.view stage r = F.guarded [stage.opening input] (source.work stage input) := by
  simp only [Framework.view, hv, bind, Except.bind, h]

/-- **A view fails on a body** or answers it: it lets an exception through, or has a response with
this status. -/
def Framework.Yields (F : Framework) (stage : Stage) (r : F.Incoming) (status : ℕ) : Prop :=
  (∃ response, F.view stage r = .ok response ∧ response.status = status ∧ Explains response) ∨
    status = 500 ∧ ∃ message, F.view stage r = .error message

theorem yields_of_breaks (hF : F.IsDocumented) (hv : F.json? r = .ok v) (h : Breaks stage v) :
    F.Yields stage r 500 := by
  cases h with
  | @rows fields objects row hrows hrow h =>
    obtain ⟨m, hm⟩ := Row.ofList_eq_error_iff.mpr ⟨row, hrow, h⟩
    have hsource : Source.ofFields fields = .error (.badRow m) := by
      rw [ofFields_of_rows hrows, hm]
      rfl
    exact .inr ⟨rfl, _, view_of_badRow hv (readBody_of_error hsource)⟩
  | script hrows hgiven h hinput =>
    have hsource := ofFields_of_noText hrows h
    rw [if_pos hgiven] at hsource
    refine .inl ?_
    rw [view_of_ok hv (readBody_of_ok hsource hinput)]
    exact exists_guarded_of_error hF _

/-- **A session that is asked for a stage decides the status**, by the success that its report tells
of. -/
theorem yields_of_session (hF : F.IsDocumented) (hv : F.json? r = .ok v)
    (h : readBody stage v = .ok (source, input)) (hsession : source.session? = some session) :
    ∃ report success, session.stageReport input stage = .ok report ∧
      report.value "success" = .bool success ∧
      F.Yields stage r (if success then 200 else 400) := by
  obtain ⟨reply, report, success, hwork, hreport, hanswers⟩ := exists_answers stage session input
  refine ⟨report, success, hreport, hanswers.success_eq, .inl ?_⟩
  rw [view_of_ok hv h, work_of_session? hsession, hwork, ← hanswers.status]
  exact exists_guarded_of_ok hF hanswers.isPresentable

theorem yields_of_succeeds (hF : F.IsDocumented) (hv : F.json? r = .ok v) (h : Succeeds stage v) :
    F.Yields stage r 200 := by
  obtain @⟨fields, session, report, hgives, hinput, hreport, h⟩ := h
  obtain ⟨source, hsource, hsession⟩ := exists_source hgives
  obtain ⟨report', success, hreport', hsuccess, hyields⟩ :=
    yields_of_session hF hv (readBody_of_ok hsource hinput) hsession
  obtain rfl := Except.ok.inj (hreport.symm.trans hreport')
  obtain rfl : true = success := by simpa using h.symm.trans hsuccess
  exact hyields

/-- **What becomes of a body**: unless the view refuses it, it breaks the stage or succeeds at
it. -/
theorem yields_cases (hF : F.IsDocumented) (hv : F.json? r = .ok v) :
    F.Yields stage r 500 ∧ Breaks stage v ∨ F.Yields stage r 200 ∧ Succeeds stage v ∨
      F.Yields stage r 400 := by
  have hfinds := finds_readBody stage v
  generalize hbody : readBody stage v = found at hfinds
  cases hfinds with
  | @nothing e h =>
    refine .inr (.inr (.inl ?_))
    rw [view_of_error hv hbody h]
    exact exists_send hF (isPresentable_refuse e.message)
  | badRow h => exact .inl ⟨yields_of_breaks hF hv h, h⟩
  | noScript h => exact .inl ⟨yields_of_breaks hF hv h, h⟩
  | @session fields source session hobject hgives hinput h =>
    obtain ⟨report, success, hreport, hsuccess, hyields⟩ := yields_of_session hF hv hbody h
    cases success with
    | true =>
      rw [hobject]
      exact .inr (.inl ⟨hyields, .intro hgives hinput hreport hsuccess⟩)
    | false => exact .inr (.inr hyields)

end Views

/-! ### Responses -/

section Responses

variable {F : Framework} {stage : Stage} {r : F.Incoming}

theorem path_nodup : (F.routes.map Route.path).Nodup := by
  have hpaths : F.routes.map Route.path = stages.map Stage.path := rfl
  rw [hpaths]
  decide

theorem mem_routes (stage : Stage) : ⟨stage.path, ["POST"], F.view stage⟩ ∈ F.routes :=
  List.mem_map.mpr ⟨stage, by cases stage <;> simp [stages], rfl⟩

/-- **What the view of a stage yields is what the framework answers.** -/
theorem respond_of_yields {status : ℕ} (hF : F.IsDocumented) (hpost : F.Posts r stage.path)
    (h : F.Yields stage r status) :
    (F.respond r).status = status ∧ Explains (F.respond r) := by
  rcases h with ⟨response, hview, hstatus, hexplains⟩ | ⟨rfl, message, hview⟩
  · have hresponse : F.respond r = response :=
      hF.serve_of_ok _ path_nodup _ (mem_routes stage) (by simp) r response hpost hview
    rw [hresponse]
    exact ⟨hstatus, hexplains⟩
  · obtain ⟨hstatus, hbody⟩ : (F.respond r).status = 500 ∧ (F.respond r).body = none :=
      hF.serve_of_error _ path_nodup _ (mem_routes stage) (by simp) r message hpost hview
    exact ⟨hstatus, by simp [hstatus], by simp [hbody]⟩

/-- What null is not, a value is that is brought. -/
theorem exists_value_iff {P : Value → Prop} (hnull : ¬P .null) (content : Option Value) :
    (∃ v, content = some v ∧ P v) ↔ P (content.getD .null) := by
  cases content <;> simp [hnull]

theorem not_breaks_null : ¬Breaks stage .null := fun h => by cases h

theorem not_succeeds_null : ¬Succeeds stage .null := fun h => by cases h

/-- **The status of a response is decided by the body.** What is posted for a stage is answered with
status 500 exactly if it brings a value that breaks the stage, with status 200 exactly if it brings
one that succeeds at it, and with status 400 exactly if it brings neither. The response explains
itself. The framework may be any that does what its documentation promises; content that is too deep
to be read is left aside. -/
theorem status_respond (F : Framework) (hF : F.IsDocumented) (stage : Stage) (r : F.Incoming)
    (hpost : F.Posts r stage.path) (hdepth : ¬F.Overflows r) :
    ((F.respond r).status = 500 ↔ ∃ v, F.content r = some v ∧ Breaks stage v) ∧
      ((F.respond r).status = 200 ↔ ∃ v, F.content r = some v ∧ Succeeds stage v) ∧
      ((F.respond r).status = 400 ↔
        ¬∃ v, F.content r = some v ∧ (Breaks stage v ∨ Succeeds stage v)) ∧
      Explains (F.respond r) := by
  have hv := hF.json r hdepth
  have hnull : ¬(Breaks stage .null ∨ Succeeds stage .null) :=
    not_or.mpr ⟨not_breaks_null, not_succeeds_null⟩
  rw [exists_value_iff not_breaks_null, exists_value_iff not_succeeds_null, exists_value_iff hnull]
  generalize (F.content r).getD .null = v at hv
  -- a response has one status, so what decides one of them excludes what decides another
  have hbreaks := fun h : Breaks stage v =>
    (respond_of_yields hF hpost (yields_of_breaks hF hv h)).1
  have hsucceeds := fun h : Succeeds stage v =>
    (respond_of_yields hF hpost (yields_of_succeeds hF hv h)).1
  rcases yields_cases hF hv with ⟨hyields, hb⟩ | ⟨hyields, hs⟩ | hyields
  · obtain ⟨hstatus, hexplains⟩ := respond_of_yields hF hpost hyields
    have hs : ¬Succeeds stage v := fun hs => by simp [hsucceeds hs] at hstatus
    simp [hstatus, hb, hs, hexplains]
  · obtain ⟨hstatus, hexplains⟩ := respond_of_yields hF hpost hyields
    have hb : ¬Breaks stage v := fun hb => by simp [hbreaks hb] at hstatus
    simp [hstatus, hb, hs, hexplains]
  · obtain ⟨hstatus, hexplains⟩ := respond_of_yields hF hpost hyields
    have hb : ¬Breaks stage v := fun hb => by simp [hbreaks hb] at hstatus
    have hs : ¬Succeeds stage v := fun hs => by simp [hsucceeds hs] at hstatus
    simp [hstatus, hb, hs, hexplains]

end Responses

section Server

variable {stage : Stage} {v : Value}

/-- The request that posts a text of some type for a stage. -/
def postedText (stage : Stage) (contentType text : String) : server.Incoming :=
  (⟨"POST", stage.path, contentType, text.toUTF8.toList⟩ : Request)

/-- A body with the small grammar and an input. -/
def bracketBody : String :=
  "\x7b\"rows\": [\x7b\"left\": \"S\", \"right\": \"a S b | c\"\x7d], \"input\": \"a c b\"\x7d"

/-- A body with a row whose alternatives are a number. -/
def numberBody : String :=
  "\x7b\"rows\": [\x7b\"right\": 1\x7d]\x7d"

theorem posts_postedText (stage : Stage) (contentType text : String) :
    server.Posts (postedText stage contentType text) stage.path := by
  rw [posts_server]
  refine ⟨?_, ?_, ?_⟩
  · change String.ofList ("POST".toList.flatMap Resource.capitals) = "POST"
    decide +kernel
  · change Target.read stage.path = _
    cases stage <;> decide +kernel
  · cases stage <;> decide +kernel

theorem not_overflows_of_content {r : server.Incoming} (h : server.content r = some v) :
    ¬server.Overflows r := by
  rw [overflows_server]
  intro hdeep
  rw [content_server, hdeep] at h
  cases h

theorem status_respond_bodies :
    (∃ v, server.content (postedText .simulation "application/json" bracketBody) = some v ∧
        Succeeds .simulation v) ∧
      (∃ v, server.content (postedText .grammar "application/json" numberBody) = some v ∧
        Breaks .grammar v) ∧
      (server.respond (postedText .grammar "text/plain" numberBody)).status = 400 := by
  refine ⟨?_, ?_, ?_⟩
  · have hstatus : (server.respond
        (postedText .simulation "application/json" bracketBody)).status = 200 := by
      decide +kernel
    obtain ⟨v, hv⟩ : ∃ v, server.content
        (postedText .simulation "application/json" bracketBody) = some v :=
      Option.isSome_iff_exists.mp (by decide +kernel)
    exact (status_respond server isDocumented_server .simulation _ (posts_postedText _ _ _)
      (not_overflows_of_content hv)).2.1.mp hstatus
  · have hstatus : (server.respond
        (postedText .grammar "application/json" numberBody)).status = 500 := by
      decide +kernel
    obtain ⟨v, hv⟩ : ∃ v, server.content
        (postedText .grammar "application/json" numberBody) = some v :=
      Option.isSome_iff_exists.mp (by decide +kernel)
    exact (status_respond server isDocumented_server .grammar _ (posts_postedText _ _ _)
      (not_overflows_of_content hv)).1.mp hstatus
  · have hread : Request.read (postedText .grammar "text/plain" numberBody) =
        .error .malformed := by
      have htype : isJson "text/plain" = false := by decide +kernel
      change (if isJson "text/plain" then _ else _) = _
      rw [htype, if_neg (by simp)]
    refine (status_respond server isDocumented_server .grammar _ (posts_postedText _ _ _)
      ?_).2.2.1.mpr ?_
    · simp [overflows_server, hread]
    · simp [content_server, hread, Except.toOption]

end Server

end ShiftReduce.Service
