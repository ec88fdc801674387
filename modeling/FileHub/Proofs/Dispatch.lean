import FileHub.Http.Conn

/-!
# Which streams are dispatched once

Once the whole stream is in the buffer, every `OnRead` reports the same thing:
the texts of all requests run together. It is reported as often as there are
tasks queued then, the one for the last delivery included. So a second request
is never dispatched as itself, and a single one is dispatched once exactly when
the delivery that completes it finds no task queued.
-/

namespace FileHub.Http

open Lib

/-- A request as it is sent, with the url and the body it carries. -/
structure Request where
  bytes : Bytes
  url : Bytes
  content : Bytes
  bytes_ne : bytes ≠ []
  url_ne : url ≠ []

/-- The handler call that serves a request. -/
def Request.own (r : Request) : Dispatch := dispatch r.url r.content

def stream (reqs : List Request) : Bytes := (reqs.map Request.bytes).flatten

/-- `http_parser` on what arrives of the requests: it reports the messages in
the buffer, the texts of successive ones appended, and completion of none
before the first is there. -/
structure Reports (parse : Bytes → Parsed) (reqs : List Request) : Prop where
  messages : ∀ done, done <+: reqs → parse (stream done) =
    ⟨(done.map Request.url).flatten, (done.map Request.content).flatten, !done.isEmpty⟩
  opening : ∀ r rest, reqs = r :: rest → ∀ p, p <+: r.bytes → p ≠ r.bytes →
    (parse p).read_all_ = false

namespace CHttpConn

variable {parse : Bytes → Parsed} {num_threads_ : ℕ} {c c' : CHttpConn}

/-- A delivery that completes a stream of this length finds no task queued. -/
def Prompt (len : ℕ) (c : CHttpConn) : Delivery → Prop
  | .message bytes => len ≤ (c.buf ++ bytes).length → c.tasks = 0
  | .task => True

/-- So does every delivery of the run. -/
def PromptAlong (parse : Bytes → Parsed) (num_threads_ len : ℕ) (c : CHttpConn) :
    List Delivery → Prop
  | [] => True
  | e :: es => c.Prompt len e ∧
      ∀ c', c.step parse num_threads_ e = some c' → PromptAlong parse num_threads_ len c' es

/-- The requests are sent, and every task has run. -/
structure Serves (parse : Bytes → Parsed) (num_threads_ : ℕ) (reqs : List Request)
    (es : List Delivery) (c : CHttpConn) : Prop where
  run : start.run parse num_threads_ es = some c
  sent : c.buf = stream reqs
  idle : c.tasks = 0

/-! ## One event -/

@[simp] theorem onRead_buf (c : CHttpConn) : (c.onRead parse).buf = c.buf := by
  rw [onRead]
  split <;> rfl

@[simp] theorem onRead_tasks (c : CHttpConn) : (c.onRead parse).tasks = c.tasks := by
  rw [onRead]
  split <;> rfl

theorem onRead_incomplete (hlen : c.buf.length < 2 ^ 32) (h : (parse c.buf).read_all_ = false) :
    c.onRead parse = c := by
  rw [onRead, Nat.mod_eq_of_lt hlen, List.take_length]
  simp only [h, Bool.false_eq_true, if_false]

theorem onRead_complete {text : Bytes} (hbuf : c.buf = text) (hlen : text.length < 2 ^ 32)
    (h : (parse text).read_all_ = true) :
    (c.onRead parse).dispatched =
      c.dispatched ++ [dispatch (parse text).url_ (parse text).body_content_] := by
  rw [onRead, hbuf, Nat.mod_eq_of_lt hlen, List.take_length]
  simp only [h, if_true]

/-- What one `OnRead` adds, if it adds anything. -/
theorem onRead_dispatched (c : CHttpConn) :
    ∃ l, (c.onRead parse).dispatched = c.dispatched ++ l := by
  rw [onRead]
  split
  · exact ⟨_, rfl⟩
  · exact ⟨[], (List.append_nil _).symm⟩

theorem step_message {bytes : Bytes} (h : c.step parse num_threads_ (.message bytes) = some c') :
    bytes ≠ [] ∧
      ((num_threads_ ≠ 0 ∧ c' = ⟨c.buf ++ bytes, c.tasks + 1, c.dispatched⟩) ∨
        (num_threads_ = 0 ∧ c' = onRead parse ⟨c.buf ++ bytes, c.tasks, c.dispatched⟩)) := by
  rw [step] at h
  split at h
  · cases h
  · next hne =>
      refine ⟨hne, ?_⟩
      dsimp only at h
      split at h
      · next hn => exact .inl ⟨hn, (Option.some.inj h).symm⟩
      · next hn => exact .inr ⟨not_not.mp hn, (Option.some.inj h).symm⟩

theorem step_task (h : c.step parse num_threads_ .task = some c') :
    0 < c.tasks ∧ c' = onRead parse ⟨c.buf, c.tasks - 1, c.dispatched⟩ := by
  rw [step] at h
  split at h
  · cases h
  · next hne => exact ⟨Nat.pos_of_ne_zero hne, (Option.some.inj h).symm⟩

theorem step_buf {e : Delivery} (h : c.step parse num_threads_ e = some c') :
    c.buf <+: c'.buf := by
  cases e with
  | message bytes =>
      obtain ⟨-, ⟨-, rfl⟩ | ⟨-, rfl⟩⟩ := step_message h
      · exact List.prefix_append _ _
      · rw [onRead_buf]
        exact List.prefix_append _ _
  | task =>
      obtain ⟨-, rfl⟩ := step_task h
      rw [onRead_buf]

/-! ## Runs -/

theorem run_cons {e : Delivery} {es : List Delivery}
    (h : c.run parse num_threads_ (e :: es) = some c') :
    ∃ d, c.step parse num_threads_ e = some d ∧ d.run parse num_threads_ es = some c' := by
  rw [run] at h
  cases hstep : c.step parse num_threads_ e with
  | none =>
      rw [hstep] at h
      cases h
  | some d =>
      rw [hstep] at h
      exact ⟨d, rfl, h⟩

theorem run_buf {es : List Delivery} (h : c.run parse num_threads_ es = some c') :
    c.buf <+: c'.buf := by
  induction es generalizing c with
  | nil =>
      cases h
      exact List.prefix_rfl
  | cons e es ih =>
      obtain ⟨d, hstep, hrun⟩ := run_cons h
      exact (step_buf hstep).trans (ih hrun)

/-- No delivery is left once the buffer is what it ends as. -/
theorem step_of_full {e : Delivery} {d : CHttpConn} (h : c.step parse num_threads_ e = some d)
    (hd : d.buf <+: c.buf) : e = .task := by
  cases e with
  | task => rfl
  | message bytes =>
      obtain ⟨hne, hstep⟩ := step_message h
      have hbuf : d.buf = c.buf ++ bytes := by
        rcases hstep with ⟨-, rfl⟩ | ⟨-, rfl⟩
        · rfl
        · rw [onRead_buf]
      rw [hbuf] at hd
      have hlen := hd.length_le
      rw [List.length_append] at hlen
      exact absurd (List.length_eq_zero_iff.mp (by omega)) hne

section Full

variable {text : Bytes} {es : List Delivery}

theorem promptAlong_cons {len : ℕ} {e : Delivery} {d : CHttpConn}
    (h : c.step parse num_threads_ e = some d) :
    c.PromptAlong parse num_threads_ len (e :: es) ↔
      c.Prompt len e ∧ d.PromptAlong parse num_threads_ len es := by
  rw [PromptAlong]
  refine and_congr_right fun _ => ⟨fun hd => hd d h, fun hd t ht => ?_⟩
  rw [h] at ht
  cases ht
  exact hd

/-- With the whole stream in the buffer, every queued task reports the same. -/
theorem run_full (hlen : text.length < 2 ^ 32) (hcomplete : (parse text).read_all_ = true)
    (hbuf : c.buf = text) (hrun : c.run parse num_threads_ es = some c')
    (hbuf' : c'.buf = text) (hidle : c'.tasks = 0) :
    c'.dispatched = c.dispatched ++ List.replicate c.tasks
        (dispatch (parse text).url_ (parse text).body_content_) ∧
      c.PromptAlong parse num_threads_ text.length es := by
  induction es generalizing c with
  | nil =>
      cases hrun
      rw [hidle]
      exact ⟨(List.append_nil _).symm, trivial⟩
  | cons e es ih =>
      obtain ⟨mid, hstep, hrest⟩ := run_cons hrun
      obtain rfl : e = .task := by
        apply step_of_full hstep
        rw [hbuf, ← hbuf']
        exact run_buf hrest
      obtain ⟨hpos, rfl⟩ := step_task hstep
      obtain ⟨hdispatched, hprompt⟩ := ih (by rw [onRead_buf]; exact hbuf) hrest
      refine ⟨?_, (promptAlong_cons hstep).mpr ⟨trivial, hprompt⟩⟩
      have hread : (onRead parse ⟨c.buf, c.tasks - 1, c.dispatched⟩).dispatched = _ :=
        onRead_complete hbuf hlen hcomplete
      rw [hread, onRead_tasks, List.append_assoc] at hdispatched
      dsimp only at hdispatched
      rw [hdispatched, List.singleton_append, ← List.replicate_succ, Nat.sub_add_cancel hpos]

/-- From the delivery that completes the stream on: one report more than there
are tasks queued at it. -/
theorem run_completing (hlen : text.length < 2 ^ 32) (hcomplete : (parse text).read_all_ = true)
    {bytes : Bytes} {mid : CHttpConn} (hpool : num_threads_ = 0 → c.tasks = 0)
    (hstep : c.step parse num_threads_ (.message bytes) = some mid) (hmid : mid.buf = text)
    (hrest : mid.run parse num_threads_ es = some c') (hbuf' : c'.buf = text)
    (hidle : c'.tasks = 0) :
    c'.dispatched = c.dispatched ++ List.replicate (c.tasks + 1)
        (dispatch (parse text).url_ (parse text).body_content_) ∧
      (c.tasks = 0 ↔ c.PromptAlong parse num_threads_ text.length (.message bytes :: es)) := by
  obtain ⟨hfull, hprompt⟩ := run_full hlen hcomplete hmid hrest hbuf' hidle
  rw [promptAlong_cons hstep, and_iff_left hprompt, Prompt]
  obtain ⟨-, ⟨-, rfl⟩ | ⟨hn, rfl⟩⟩ := step_message hstep
  · exact ⟨hfull, fun h _ => h, fun h => h (by rw [← hmid])⟩
  · rw [onRead_buf] at hmid
    rw [onRead_complete hmid hlen hcomplete, onRead_tasks, hpool hn, List.append_assoc] at hfull
    dsimp only at hfull
    rw [hpool hn, Nat.zero_add]
    exact ⟨hfull, fun _ _ => rfl, fun _ => rfl⟩

/-- An event that leaves the stream incomplete dispatches nothing, if the
parser reports nothing on what is there. -/
theorem step_incomplete (hlen : text.length < 2 ^ 32) {e : Delivery} {mid : CHttpConn}
    (hstep : c.step parse num_threads_ e = some mid) (hpre : mid.buf <+: text)
    (hmid : mid.buf ≠ text) :
    ∃ l, mid.dispatched = c.dispatched ++ l ∧
      ((∀ p, p <+: text → p ≠ text → (parse p).read_all_ = false) → l = []) := by
  -- tasks and deliveries without a pool both read
  have hread : ∀ s : CHttpConn, s.dispatched = c.dispatched → mid = s.onRead parse →
      ∃ l, mid.dispatched = c.dispatched ++ l ∧
        ((∀ p, p <+: text → p ≠ text → (parse p).read_all_ = false) → l = []) := by
    rintro s hs rfl
    obtain ⟨l, hl⟩ : ∃ l, (s.onRead parse).dispatched = s.dispatched ++ l := onRead_dispatched s
    refine ⟨l, hs ▸ hl, fun hparse => ?_⟩
    rw [onRead_buf] at hpre hmid
    have hshort := lt_of_le_of_lt hpre.length_le hlen
    rw [onRead_incomplete hshort (hparse _ hpre hmid)] at hl
    exact List.self_eq_append_right.mp hl
  cases e with
  | message bytes =>
      obtain ⟨-, ⟨-, rfl⟩ | ⟨-, hread'⟩⟩ := step_message hstep
      · exact ⟨[], (List.append_nil _).symm, fun _ => rfl⟩
      · exact hread ⟨c.buf ++ bytes, c.tasks, c.dispatched⟩ rfl hread'
  | task => exact hread ⟨c.buf, c.tasks - 1, c.dispatched⟩ rfl (step_task hstep).2

theorem prompt_of_incomplete {e : Delivery} {mid : CHttpConn}
    (hstep : c.step parse num_threads_ e = some mid) (hpre : mid.buf <+: text)
    (hmid : mid.buf ≠ text) : c.Prompt text.length e := by
  cases e with
  | task => trivial
  | message bytes =>
      intro hreach
      refine absurd (hpre.eq_of_length_le ?_) hmid
      obtain ⟨-, ⟨-, rfl⟩ | ⟨-, rfl⟩⟩ := step_message hstep
      · exact hreach
      · rw [onRead_buf]
        exact hreach

theorem step_tasks {e : Delivery} {mid : CHttpConn}
    (hstep : c.step parse num_threads_ e = some mid) (hpool : num_threads_ = 0 → c.tasks = 0)
    (hn : num_threads_ = 0) : mid.tasks = 0 := by
  cases e with
  | message bytes =>
      obtain ⟨-, ⟨hne, -⟩ | ⟨-, rfl⟩⟩ := step_message hstep
      · exact absurd hn hne
      · rw [onRead_tasks]
        exact hpool hn
  | task =>
      obtain ⟨hpos, -⟩ := step_task hstep
      have hzero := hpool hn
      omega

/-- A run dispatches what it may before the stream is complete, and then the
report of the whole stream, at least once. -/
theorem run_dispatched (hlen : text.length < 2 ^ 32) (hcomplete : (parse text).read_all_ = true)
    (hpool : num_threads_ = 0 → c.tasks = 0) (hbuf : c.buf ≠ text)
    (hrun : c.run parse num_threads_ es = some c') (hbuf' : c'.buf = text)
    (hidle : c'.tasks = 0) :
    ∃ l k, c'.dispatched = c.dispatched ++ l ++ List.replicate (k + 1)
        (dispatch (parse text).url_ (parse text).body_content_) ∧
      (k = 0 ↔ c.PromptAlong parse num_threads_ text.length es) ∧
      ((∀ p, p <+: text → p ≠ text → (parse p).read_all_ = false) → l = []) := by
  induction es generalizing c with
  | nil =>
      cases hrun
      exact absurd hbuf' hbuf
  | cons e es ih =>
      obtain ⟨mid, hstep, hrest⟩ := run_cons hrun
      by_cases hmid : mid.buf = text
      · cases e with
        | task =>
            rw [(step_task hstep).2, onRead_buf] at hmid
            exact absurd hmid hbuf
        | message bytes =>
            obtain ⟨hdispatched, hk⟩ :=
              run_completing hlen hcomplete hpool hstep hmid hrest hbuf' hidle
            exact ⟨[], c.tasks, by rw [hdispatched, List.append_nil], hk, fun _ => rfl⟩
      · have hpre : mid.buf <+: text := hbuf' ▸ run_buf hrest
        obtain ⟨l, k, hdispatched, hk, hopening⟩ := ih (step_tasks hstep hpool) hmid hrest
        obtain ⟨l', hl', hnil⟩ := step_incomplete hlen hstep hpre hmid
        refine ⟨l' ++ l, k, ?_, ?_, fun hparse => ?_⟩
        · rw [hdispatched, hl', List.append_assoc c.dispatched]
        · rw [hk, promptAlong_cons hstep]
          exact (and_iff_right (prompt_of_incomplete hstep hpre hmid)).symm
        · rw [hnil hparse, hopening hparse, List.append_nil]

end Full

/-! ## Requests -/

/-- At most one request, in a stream whose length an `int32_t` keeps apart, and
completed when no task is queued. -/
def Alone (parse : Bytes → Parsed) (num_threads_ : ℕ) (reqs : List Request)
    (es : List Delivery) : Prop :=
  reqs.length ≤ 1 ∧ (stream reqs).length < 2 ^ 32 ∧
    start.PromptAlong parse num_threads_ (stream reqs).length es

variable {reqs : List Request} {es : List Delivery}

theorem stream_ne_nil {r : Request} {rest : List Request} : stream (r :: rest) ≠ [] := by
  intro h
  rw [stream, List.map_cons, List.flatten_cons, List.append_eq_nil_iff] at h
  exact r.bytes_ne h.1

/-- Nothing happens on a connection that is sent nothing. -/
theorem run_silent (hrun : start.run parse num_threads_ es = some c) (hbuf : c.buf = []) :
    es = [] := by
  cases es with
  | nil => rfl
  | cons e es =>
      obtain ⟨mid, hstep, hrest⟩ := run_cons hrun
      have hmid : mid.buf <+: [] := by
        rw [← hbuf]
        exact run_buf hrest
      obtain rfl := step_of_full hstep hmid
      exact absurd (step_task hstep).1 (by decide)

theorem dispatched_single {r : Request} (hreports : Reports parse [r])
    (hlen : (stream [r]).length < 2 ^ 32) (hserves : Serves parse num_threads_ [r] es c) :
    c.dispatched = [r.own] ↔
      start.PromptAlong parse num_threads_ (stream [r]).length es := by
  have hparse := hreports.messages [r] List.prefix_rfl
  have hstream : stream [r] = r.bytes := List.append_nil _
  obtain ⟨l, k, hdispatched, hk, hopening⟩ := run_dispatched hlen (by rw [hparse]; rfl)
    (fun _ => rfl) stream_ne_nil.symm hserves.run hserves.sent hserves.idle
  have hown : dispatch (parse (stream [r])).url_ (parse (stream [r])).body_content_ = r.own := by
    rw [hparse, Request.own]
    simp only [List.map_cons, List.map_nil, List.flatten_cons, List.flatten_nil, List.append_nil]
  have hnil : l = [] := hopening (hstream ▸ hreports.opening r [] rfl)
  rw [← hk, hdispatched, hown, hnil, List.replicate_succ]
  show r.own :: List.replicate k r.own = [r.own] ↔ k = 0
  rw [List.cons_eq_cons, and_iff_right rfl, List.replicate_eq_nil_iff]

/-- What is reported of several requests is the report of none of them. -/
theorem dispatched_several {r s : Request} {rest : List Request}
    (hreports : Reports parse (r :: s :: rest))
    (hlen : (stream (r :: s :: rest)).length < 2 ^ 32)
    (hserves : Serves parse num_threads_ (r :: s :: rest) es c) :
    c.dispatched ≠ (r :: s :: rest).map Request.own := by
  have hparse := hreports.messages _ List.prefix_rfl
  obtain ⟨l, k, hdispatched, -, -⟩ := run_dispatched hlen (by rw [hparse]; rfl)
    (fun _ => rfl) stream_ne_nil.symm hserves.run hserves.sent hserves.idle
  intro h
  obtain ⟨init, last, hlast⟩ : ∃ init last, s :: rest = init ++ [last] :=
    ⟨_, _, (List.dropLast_append_getLast (List.cons_ne_nil s rest)).symm⟩
  have hown : (r :: s :: rest).map Request.own = (r :: init).map Request.own ++ [last.own] := by
    rw [hlast, ← List.cons_append]
    exact List.map_append
  rw [hown, hdispatched, hparse, hlast, List.replicate_succ', ← List.append_assoc] at h
  have hurl : dispatch _ _ = last.own := List.singleton_inj.mp (List.append_inj' h rfl).2
  have htext := congrArg List.length (congrArg Dispatch.url hurl)
  simp only [dispatch, Request.own, List.map_cons, List.map_append,
    List.flatten_cons, List.flatten_append, List.map_nil, List.flatten_nil, List.append_nil,
    List.length_append] at htext
  have hpos := List.length_pos_iff.mpr r.url_ne
  omega

/-- Requests that are alone on their connection are dispatched once each, with their own url
and body. Within 4 GiB no others are. -/
theorem dispatched_iff (hreports : Reports parse reqs)
    (hserves : Serves parse num_threads_ reqs es c) :
    (Alone parse num_threads_ reqs es → c.dispatched = reqs.map Request.own) ∧
      ((stream reqs).length < 2 ^ 32 → c.dispatched = reqs.map Request.own →
        Alone parse num_threads_ reqs es) := by
  match reqs with
  | [] =>
      obtain rfl := run_silent hserves.run hserves.sent
      have hc : start = c := Option.some.inj hserves.run
      exact ⟨fun _ => hc ▸ rfl, fun hlen _ => ⟨Nat.zero_le 1, hlen, trivial⟩⟩
  | [r] =>
      constructor
      · intro ⟨_, hlen, hprompt⟩
        exact (dispatched_single hreports hlen hserves).mpr hprompt
      · intro hlen h
        exact ⟨le_rfl, hlen, (dispatched_single hreports hlen hserves).mp h⟩
  | r :: s :: rest =>
      constructor
      · intro ⟨hone, _⟩
        simp only [List.length_cons] at hone
        omega
      · intro hlen h
        exact absurd h (dispatched_several hreports hlen hserves)

/-! ## One request, sent once and twice -/

def login : Request where
  bytes := ascii "POST /api/login HTTP/1.1\r\nContent-Length:2\r\n\r\n\x7b\x7d"
  url := ascii "/api/login"
  content := ascii "\x7b\x7d"
  bytes_ne := by decide
  url_ne := by decide

/-- The parser on copies of one request. -/
def copies (r : Request) (buf : Bytes) : Parsed :=
  let n := buf.length / r.bytes.length
  ⟨(List.replicate n r.url).flatten, (List.replicate n r.content).flatten, n != 0⟩

theorem copies_reports (r : Request) (n : ℕ) : Reports (copies r) (List.replicate n r) := by
  have hpos := List.length_pos_iff.mpr r.bytes_ne
  constructor
  · intro done hdone
    obtain ⟨-, hdone⟩ := List.prefix_replicate_iff.mp hdone
    generalize done.length = k at hdone
    subst hdone
    have hn : (stream (List.replicate k r)).length / r.bytes.length = k := by
      rw [stream, List.map_replicate, List.length_flatten, List.map_replicate,
        List.sum_replicate_nat,
        Nat.mul_div_cancel k hpos]
    simp only [copies, hn, List.map_replicate]
    cases k <;> rfl
  · intro r' rest hcons p hp hne
    cases n with
    | zero => cases hcons
    | succ n =>
        obtain ⟨rfl, -⟩ := List.cons_eq_cons.mp hcons
        have hlt : p.length < r.bytes.length :=
          lt_of_le_of_ne hp.length_le fun h => hne (hp.eq_of_length h)
        simp only [copies, Nat.div_eq_of_lt hlt, bne_self_eq_false]

def pooled : List Delivery := [.message login.bytes, .task]

/-- Delivered in one piece to an idle connection. -/
theorem login_dispatched :
    (⟨login.bytes, 0, [login.own]⟩ : CHttpConn).dispatched = [login].map Request.own := by
  have hserves : Serves (copies login) 4 [login] pooled ⟨login.bytes, 0, [login.own]⟩ :=
    ⟨by decide, by decide, rfl⟩
  have halone : Alone (copies login) 4 [login] pooled :=
    ⟨le_rfl, by decide, fun _ => rfl, fun _ _ => ⟨trivial, fun _ _ => trivial⟩⟩
  exact (dispatched_iff (copies_reports login 1) hserves).1 halone

/-- The second login is dispatched with its url and body twice over. -/
theorem pipelined_misdispatched :
    ¬ ∀ (parse : Bytes → Parsed) (num_threads_ : ℕ) (reqs : List Request) (es : List Delivery)
      (c : CHttpConn), Reports parse reqs → Serves parse num_threads_ reqs es c →
      c.dispatched = reqs.map Request.own := by
  intro h
  have hwrong := h (copies login) 4 [login, login] (pooled ++ pooled)
    ⟨login.bytes ++ login.bytes, 0,
      [login.own, dispatch (login.url ++ login.url) (login.content ++ login.content)]⟩
    (copies_reports login 2) ⟨by decide, by decide, rfl⟩
  exact absurd hwrong (by decide)

end CHttpConn

end FileHub.Http
