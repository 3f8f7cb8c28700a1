import HyperFastPath.FastPath.Alignment
import HyperFastPath.FastPath.FlowSafety
import HyperFastPath.FastPath.RenderedFrames
import HyperFastPath.Lib.Http1

/-!
# What the server would have answered

The fast path never looks at the method of a request.  Its routes stand for routes that take GETs
alone, so whether it says what the server would is up to the client.
-/

namespace HyperFastPath.FastPath

open Bytes Http2 Numerals Http1

/-! ## 1. What a client reads -/

/-- The fields of the HTTP/1.1 rendering. -/
def renderedFields (file : File) (content : List UInt8) : List (List UInt8) :=
  [fieldLine "Content-Length" (written content.length),
    fieldLine "Content-Type" (asBytes (contentType file)),
    fieldLine "Connection" (ascii "keep-alive")]

theorem renderResponse_lines {file : File} {content bytes : List UInt8}
    (hcontent : file.content = some content) (h : renderResponse file = .ok bytes) :
    bytes = (ascii "HTTP/1.1 200 OK" :: renderedFields file content).flatMap (· ++ crlf) ++ crlf ++
      content := by
  rw [renderResponse, File.read, hcontent] at h
  cases h
  simp only [asBytes_append, asBytes_toString]
  have hlength : asBytes "HTTP/1.1 200 OK\r\nContent-Length: " =
      ascii "HTTP/1.1 200 OK" ++ crlf ++ (ascii "Content-Length" ++ [0x3A, 0x20]) := by decide
  have htype : asBytes "\r\nContent-Type: " = crlf ++ (ascii "Content-Type" ++ [0x3A, 0x20]) := by
    decide
  have hconn : asBytes "\r\nConnection: keep-alive\r\n\r\n" =
      crlf ++ (ascii "Connection" ++ 0x3A :: 0x20 :: ascii "keep-alive") ++ crlf ++ crlf := by decide
  rw [hlength, htype, hconn]
  simp [renderedFields, fieldLine]

theorem contentType_cr (file : File) : 0x0D ∉ asBytes (contentType file) := by
  unfold contentType
  split <;> decide

theorem renderedFields_names (file : File) (content : List UInt8) :
    (renderedFields file content).map fieldName =
      [ascii "content-length", ascii "content-type", ascii "connection"] := by
  simp only [renderedFields, List.map_cons, List.map_nil]
  rw [fieldName_fieldLine (by decide), fieldName_fieldLine (by decide),
    fieldName_fieldLine (by decide)]
  decide

theorem renderedLines_whole (file : File) (content : List UInt8) :
    ∀ line ∈ ascii "HTTP/1.1 200 OK" :: renderedFields file content,
      line ≠ [] ∧ 0x0D ∉ line := by
  have hline {name : String} {value : List UInt8} (hname : 0x0D ∉ ascii name)
      (hvalue : 0x0D ∉ value) : fieldLine name value ≠ [] ∧ 0x0D ∉ fieldLine name value := by
    refine ⟨by simp [fieldLine], fun hmem ↦ ?_⟩
    rcases List.mem_append.mp hmem with hmem | hmem
    · exact hname hmem
    · simp only [List.mem_cons] at hmem
      exact hvalue (by simpa using hmem)
  have hdigits := (written_spec content.length).1
  rw [List.forall_mem_cons]
  refine ⟨by decide, ?_⟩
  unfold renderedFields
  rw [List.forall_mem_cons, List.forall_mem_cons, List.forall_mem_singleton]
  exact ⟨hline (by decide) fun hmem ↦ absurd (hdigits _ hmem) (by decide),
    hline (by decide) (contentType_cr file), hline (by decide) (by decide)⟩

/-- The HTTP/1.1 rendering says where it ends. -/
theorem renderResponse_delimited (coded : List UInt8 → Option (List UInt8 × List UInt8))
    {file : File} {content bytes method : List UInt8} (hcontent : file.content = some content)
    (h : renderResponse file = .ok bytes) (hmethod : method ≠ ascii "HEAD") :
    Delimited coded method bytes ⟨200, content⟩ := by
  obtain ⟨hdigits, hdecimal⟩ := written_spec content.length
  have hnames := renderedFields_names file content
  rw [renderResponse_lines hcontent h]
  apply delimited_of_lines (renderedLines_whole file content) (by decide) ?_ ?_ ?_ hdecimal
  · rintro (hhead | hcode)
    · exact hmethod hhead
    · revert hcode
      decide
  · rw [field, List.find?_eq_none.mpr, Option.map_none]
    intro line hline
    have hmem := List.mem_map_of_mem (f := fieldName) hline
    rw [hnames] at hmem
    rw [decide_eq_true_eq]
    intro hname
    rw [hname] at hmem
    exact absurd hmem (by decide)
  · have hname : fieldName (fieldLine "Content-Length" (written content.length)) =
        ascii "content-length" := (List.cons.inj hnames).1
    rw [field, renderedFields, List.find?_cons_of_pos (by simpa using hname), Option.map_some,
      fieldValue_fieldLine (by decide) fun hmem ↦ absurd (hdigits _ hmem) (by decide)]

/-- The frames are one stream's and say what `reply` does: its status in a header block of their
own, its body in the DATA up to the end of the stream. -/
structure SaysInFrames (sid : UInt32) (bytes : List UInt8) (reply : Reply) (head : Frame)
    (data : List Frame) : Prop where
  whole : bytes = encodeAll (head :: data)
  stream : ∀ f ∈ head :: data, f.sid = sid
  headers : head.kind = 0x01 ∧ head.flags = 0x04
  status : ∃ fields, ⟨.plain ":status", ⟨false, written reply.status⟩⟩ ∈ fields ∧
    ∀ (len : Hpack.Str → Nat) (t : Hpack.Table),
      Hpack.decodeBlock len Hpack.staticTable t head.payload = some (fields, t)
  kinds : ∀ f ∈ data, f.kind = 0x00
  body : (data.map Frame.payload).flatten = reply.body
  ends : ∃ front last, data = front ++ [last] ∧ last.flags = 0x01 ∧ ∀ f ∈ front, f.flags = 0x00

/-- So does the HTTP/2 rendering, once it has the stream id. -/
theorem renderH2Response_says {file : File} {content : List UInt8} {r : H2Rendering}
    (hcontent : file.content = some content) (h : renderH2Response file = .ok r)
    (hfits : r.body.length ≤ maxRouteBody) (sid : UInt32) :
    ∃ head data, SaysInFrames sid (patchSids sid r.body r.sidOffs) ⟨200, content⟩ head data := by
  -- the file is part of the rendering
  have hlen : content.length ≤ r.body.length := by
    obtain ⟨content', hcontent', rfl⟩ := renderH2Response_ok h
    cases hcontent.symm.trans hcontent'
    have hbody := renderChunks_body_length (renderHeaders file content) (responseChunks content)
    rw [responseChunks_flatten] at hbody
    omega
  simp only [maxRouteBody, maxChunks, chunk] at hfits
  obtain ⟨head, data, hwell, hsids⟩ :=
    wellFormed_of_render hcontent (show content.length < 2 ^ 63 by omega) h
  have hframes : r.Frames (head :: data) :=
    H2Rendering.Holds.frames ⟨hwell.whole, hsids, hwell.blank⟩ (by omega)
  obtain ⟨length, -, -, hdecodes⟩ := hwell.fields
  have hstatus : Hpack.Str.plain "200" = ⟨false, written 200⟩ := by decide
  simp only [hstatus] at hdecodes
  obtain ⟨front, last, hdata, hlast, hfront⟩ := hwell.ends
  refine ⟨{ head with sid }, data.map ({ · with sid }), ?_⟩
  exact
    { whole := hframes.patch sid
      stream := fun f hf ↦ by
        obtain ⟨g, -, rfl⟩ := List.mem_map.mp (show f ∈ (head :: data).map ({ · with sid }) from hf)
        rfl
      headers := hwell.headers
      status := ⟨_, .head _, hdecodes⟩
      kinds := fun f hf ↦ by
        obtain ⟨g, hg, rfl⟩ := List.mem_map.mp hf
        exact (hwell.sized g hg).1
      body := by rw [List.map_map]; exact hwell.carries
      ends := by
        refine ⟨front.map ({ · with sid }), { last with sid }, by rw [hdata, List.map_append]; rfl,
          hlast, fun f hf ↦ ?_⟩
        obtain ⟨g, hg, rfl⟩ := List.mem_map.mp hf
        exact hfront g hg }

/-! ## 2. What is answered -/

/-- What a route that takes GETs alone answers with. -/
def getOnly (content method : List UInt8) : Reply :=
  if method = ascii "GET" then ⟨200, content⟩ else ⟨405, []⟩

/-- A request that was answered, and the answer. -/
structure Answered where
  h2 : Bool
  method : List UInt8
  path : List UInt8
  sid : UInt32
  response : List UInt8
  deriving DecidableEq, Repr

section

variable (coded : List UInt8 → Option (List UInt8 × List UInt8))
  (fields : List UInt8 → List HeaderField → List (List UInt8 × List UInt8))

/-- The method of the request there is next, the first word of its request line or, if a header
block is what there is, the `:method` among the fields it decodes to. -/
def Pipe.method (p : Pipe) : List UInt8 :=
  if p.conn.isH2 then ((fields p.buf p.mirror).lookup (ascii ":method")).getD []
  else p.buf.takeWhile (· ≠ 0x20)

/-- What the client makes of an answer. -/
def Answered.Says (x : Answered) (reply : Reply) : Prop :=
  if x.h2 then ∃ head data, SaysInFrames x.sid x.response reply head data
  else Delimited coded x.method x.response reply

/-- What a step sends to the client. -/
def answered (lim : Limits) (cfg : Routes) (p : Pipe) : Act → List Answered
  | .send _ => []
  | .run h ans =>
    let response := (p.step lim cfg (.run h ans)).toClient.drop p.toClient.length
    let q := parse h ans p.conn
    if response = [] then []
    else [⟨p.conn.isH2, p.method fields, q.path.getD [], q.sid, response⟩]

/-- A request that gets past the checks is a GET. -/
def AsksByGet (cfg : Routes) (p : Pipe) : Act → Prop
  | .send _ => True
  | .run h ans => p.Pending → ¬ SeesPreface ans p.conn →
    (answeringRoute cfg h ans p.conn p.buf).isSome → p.method fields = ascii "GET"

/-- A request with another method is left to the server, if not dropped. -/
def LeavesOthers (lim : Limits) (cfg : Routes) (p : Pipe) : Act → Prop
  | .send _ => True
  | .run h ans => p.Pending → p.method fields ≠ ascii "GET" →
    let p' := p.step lim cfg (.run h ans)
    p'.toClient = p.toClient ∧
      (p'.dropped ∨ ∃ bytes, bytes ≠ [] ∧ bytes <+: p.buf ∧ p'.log = p.log ++ [⟨true, bytes⟩])

end

/-- A request over HTTP/2 is on a stream. -/
def AsksOnStream (p : Pipe) : Act → Prop
  | .send _ => True
  | .run _ ans => p.conn.isH2 → ans.path.isSome → ans.frame.sid ≠ 0

instance (p : Pipe) : (act : Act) → Decidable (AsksOnStream p act)
  | .send _ => isTrue trivial
  | .run _ _ => inferInstanceAs (Decidable (_ → _))

instance (fields : List UInt8 → List HeaderField → List (List UInt8 × List UInt8)) (cfg : Routes)
    (p : Pipe) : (act : Act) → Decidable (AsksByGet fields cfg p act)
  | .send _ => isTrue trivial
  | .run _ _ => inferInstanceAs (Decidable (_ → _))

/-- An answer to a GET that says what the route of its path would. -/
def Answered.Agrees (coded : List UInt8 → Option (List UInt8 × List UInt8))
    (huffman : List UInt8 → List UInt8) (routes : List (List UInt8 × File)) (x : Answered) : Prop :=
  x.method = ascii "GET" ∧ ∃ path file content, (path, file) ∈ routes ∧
    (routeKey x.path = routeKey path ∨ routeKey x.path = routeKey (huffman path)) ∧
    file.content = some content ∧ x.Says coded (getOnly content x.method)

variable {huffman : List UInt8 → List UInt8} {routes : List (List UInt8 × File)} {dummies : Nat}
  {a : Attached} {lim : Limits} {h : Helpers} {ans : Answers} {p : Pipe}
  {coded : List UInt8 → Option (List UInt8 × List UInt8)}
  {fields : List UInt8 → List HeaderField → List (List UInt8 × List UInt8)}

theorem response_ne_nil {cfg : Routes} {conn : Conn} {bytes : List UInt8} {i : Fin maxRoutes}
    (hroute : answeringRoute cfg h ans conn bytes = some i) :
    (cfg.routes i).response cfg.arena (parse h ans conn).sid ≠ [] := by
  intro hnil
  have hlen := congrArg List.length hnil
  rw [response_length, List.length_nil] at hlen
  exact (answeringRoute_suits hroute).2.2.1.1 hlen

theorem parse_sid {conn : Conn} (hstream : conn.isH2 → ans.path.isSome → ans.frame.sid ≠ 0)
    {path : List UInt8} (hpath : (parse h ans conn).path = some path) :
    (conn.isH2 = true → (parse h ans conn).sid ≠ 0) ∧
      (conn.isH2 = false → (parse h ans conn).sid = 0) := by
  unfold parse at hpath ⊢
  cases hup : conn.upgraded with
  | none =>
    refine ⟨fun hh2 ↦ ?_, fun _ ↦ rfl⟩
    rw [Conn.isH2, hup] at hh2
    cases hh2
  | some state =>
    refine ⟨fun hh2 ↦ ?_, fun hh2 ↦ ?_⟩
    · rw [hup] at hpath
      simp only [parseH2] at hpath ⊢
      by_cases hret : ans.ret < 0
      · rw [if_pos hret] at hpath
        cases hpath
      · rw [if_neg hret] at hpath ⊢
        simp only at hpath
        split at hpath
        · exact hstream hh2 (by rw [hpath]; rfl)
        · cases hpath
    · rw [Conn.isH2, hup] at hh2
      cases hh2

/-- What is found for a path was prepared for a configured one. -/
theorem Attached.Of.find_eq_some (ha : a.Of huffman routes) {name : List UInt8}
    {i : Fin maxRoutes} (hfind : a.cfg.find name = some i) :
    ∃ r ∈ a.prepared, ∃ path file, (path, file) ∈ routes ∧ r.From huffman path file ∧
      (routeKey name = routeKey path ∨ routeKey name = routeKey (huffman path)) ∧
      a.cfg.routes i = r.toRoute := by
  unfold Routes.find at hfind
  split at hfind
  · cases hfind
  obtain ⟨idx, hidx, rfl⟩ := Option.map_eq_some_iff.mp hfind
  exact ha.indexed hidx

variable (coded) in
/-- An answer to a GET is the answer the server would give. -/
theorem answer_says (ha : a.Of huffman routes) {conn : Conn} {bytes : List UInt8}
    {i : Fin maxRoutes} (hroute : answeringRoute a.cfg h ans conn bytes = some i)
    (hstream : conn.isH2 → ans.path.isSome → ans.frame.sid ≠ 0) :
    ∃ path file content, (path, file) ∈ routes ∧
      (routeKey ((parse h ans conn).path.getD []) = routeKey path ∨
        routeKey ((parse h ans conn).path.getD []) = routeKey (huffman path)) ∧
      file.content = some content ∧
      Answered.Says coded ⟨conn.isH2, ascii "GET", (parse h ans conn).path.getD [],
        (parse h ans conn).sid, (a.cfg.routes i).response a.cfg.arena (parse h ans conn).sid⟩
        ⟨200, content⟩ := by
  obtain ⟨-, -, hsuits, path, hpath, hfind⟩ := answeringRoute_suits hroute
  obtain ⟨r, hr, name, file, hmem, hfrom, hkey, hat⟩ := ha.find_eq_some hfind
  obtain ⟨content, hcontent⟩ : ∃ content, file.content = some content := by
    have hbody := hfrom.body
    rw [renderResponse, File.read] at hbody
    cases hfile : file.content with
    | none =>
      rw [hfile] at hbody
      cases hbody
    | some content => exact ⟨content, rfl⟩
  rw [hat] at hsuits
  have hh2 (hsid : (parse h ans conn).sid ≠ 0) : r.h2.isSome := by
    have hne := hsuits.1
    rw [if_pos hsid] at hne
    exact toRoute_h2 hne
  have hrenders := response_renders ha hr hfrom (parse h ans conn).sid hh2
  rw [hpath, Option.getD_some, hat]
  refine ⟨name, file, content, hmem, hkey, hcontent, ?_⟩
  obtain ⟨hsid, hplain⟩ := parse_sid hstream hpath
  unfold Answered.Says
  unfold RendersAs at hrenders
  simp only
  split
  · rename_i hconn
    rw [if_neg (hsid hconn)] at hrenders
    obtain ⟨rendering, hrendering, hresponse⟩ := hrenders
    obtain ⟨h2, hsome⟩ := Option.isSome_iff_exists.mp (hh2 (hsid hconn))
    have hsame := hfrom.h2 h2 hsome
    rw [hrendering] at hsame
    cases hsame
    rw [hresponse]
    exact renderH2Response_says hcontent hrendering h2.body_fits _
  · rename_i hconn
    rw [if_pos (hplain (Bool.eq_false_of_not_eq_true hconn))] at hrenders
    exact renderResponse_delimited coded hcontent hrenders (by decide)

/-! ## 3. Over a run -/

variable (lim fields) in
/-- What a run of the program sends to the client. -/
theorem answered_cases (hp : p.Pending) (hlen : p.buf.length < 2 ^ 31) (cfg : Routes) :
    ((p.step lim cfg (.run h ans)).toClient = p.toClient ∧
        answered fields lim cfg p (.run h ans) = [] ∧ (h.AllOk → ¬ SeesPreface ans p.conn →
          answeringRoute cfg h ans p.conn p.buf = none) ∧
        ((p.step lim cfg (.run h ans)).dropped ∨ ∃ bytes, bytes ≠ [] ∧ bytes <+: p.buf ∧
          (p.step lim cfg (.run h ans)).log = p.log ++ [⟨true, bytes⟩])) ∨
      ∃ i, ¬ SeesPreface ans p.conn ∧ answeringRoute cfg h ans p.conn p.buf = some i ∧
        (p.step lim cfg (.run h ans)).toClient =
          p.toClient ++ (cfg.routes i).response cfg.arena (parse h ans p.conn).sid ∧
        answered fields lim cfg p (.run h ans) =
          [⟨p.conn.isH2, p.method fields, (parse h ans p.conn).path.getD [],
            (parse h ans p.conn).sid,
            (cfg.routes i).response cfg.arena (parse h ans p.conn).sid⟩] := by
  have hrun := run_settles lim cfg h ans hp hlen
  simp only [answered]
  generalize p.step lim cfg (.run h ans) = p' at hrun
  have hnone (hdecl : Declines cfg h ans p.conn p.buf) (hall : h.AllOk) :
      answeringRoute cfg h ans p.conn p.buf = none := by
    by_contra hne
    exact hdecl.not_serves ((serves_iff hall).mpr (Option.ne_none_iff_isSome.mp hne))
  cases hrun with
  | dropped hcause =>
    exact .inl ⟨rfl, by simp, fun hall _ ↦ hnone (hcause hall).1 hall, .inl rfl⟩
  | upgraded hnew =>
    refine .inl ⟨rfl, by simp, fun _ hno ↦ absurd hnew hno, .inr ⟨p.buf.take 24, ?_,
      List.take_prefix _ _, rfl⟩⟩
    simp [hp.2]
  | @answered i hnew _ hroute =>
    refine .inr ⟨i, hnew, hroute, rfl, ?_⟩
    simp only [List.drop_left]
    rw [if_neg (response_ne_nil hroute)]
  | forwarded _ _ _ hdecl =>
    exact .inl ⟨rfl, by simp, fun hall _ ↦ hnone hdecl hall,
      .inr ⟨p.buf, hp.2, List.prefix_refl _, rfl⟩⟩

theorem answered_idle {cfg : Routes} (hp : ¬ p.Pending) :
    answered fields lim cfg p (.run h ans) = [] := by
  simp only [answered, step_run_idle hp, List.drop_length, if_true]

/-- The answers are all that is sent to the client. -/
theorem step_toClient {cfg : Routes} (hp : p.Regular) (act : Act) :
    (p.step lim cfg act).toClient =
      p.toClient ++ (answered fields lim cfg p act).flatMap Answered.response := by
  cases act with
  | send m => rw [send_toClient lim cfg hp m, answered, List.flatMap_nil, List.append_nil]
  | run h ans =>
    by_cases hpend : p.Pending
    · rcases answered_cases lim fields hpend hp.bounded cfg with
        ⟨hsame, hnone, -⟩ | ⟨i, -, -, hout, hanswered⟩
      · rw [hsame, hnone, List.flatMap_nil, List.append_nil]
      · rw [hout, hanswered, List.flatMap_singleton]
    · rw [step_run_idle hpend, answered_idle hpend, List.flatMap_nil, List.append_nil]

theorem run_toClient (lim : Limits) (cfg : Routes)
    (fields : List UInt8 → List HeaderField → List (List UInt8 × List UInt8)) (acts : List Act) :
    (Runs.exec (Pipe.step lim cfg) .new acts).toClient =
      (Runs.record (Pipe.step lim cfg) (answered fields lim cfg) .new acts).flatMap
        Answered.response := by
  have hall : Runs.Along (Pipe.step lim cfg) (fun _ _ ↦ True) .new acts :=
    .of_forall (fun _ _ ↦ trivial) Pipe.new acts
  exact hall.accumulates (I := Pipe.Regular) Pipe.toClient Answered.response
    (fun p act hp _ ↦ step_regular lim cfg hp) (fun p act hp _ ↦ step_toClient hp act) .new

/-- What a step answers is a GET, and the answer the server's, if no other request gets past the
checks. -/
theorem answered_agrees (ha : a.Of huffman routes) (hp : p.Regular) {act : Act}
    (hget : AsksByGet fields a.cfg p act) (hstream : AsksOnStream p act) :
    ∀ x ∈ answered fields lim a.cfg p act, x.Agrees coded huffman routes := by
  cases act with
  | send m =>
    intro x hx
    cases hx
  | run h ans =>
    by_cases hpend : p.Pending
    swap
    · rw [answered_idle hpend]
      intro x hx
      cases hx
    rcases answered_cases lim fields hpend hp.bounded a.cfg with
      ⟨-, hnone, -⟩ | ⟨i, hnew, hroute, -, hanswered⟩
    · rw [hnone]
      intro x hx
      cases hx
    · rw [hanswered, List.forall_mem_singleton]
      have hmethod := hget hpend hnew (by rw [hroute]; rfl)
      obtain ⟨path, file, content, hmem, hkey, hcontent, hsays⟩ :=
        answer_says coded ha hroute hstream
      refine ⟨hmethod, path, file, content, hmem, hkey, hcontent, ?_⟩
      simp only [hmethod, getOnly, if_pos]
      exact hsays

theorem leavesOthers_of_asksByGet {cfg : Routes} (hp : p.Regular) {act : Act}
    (hget : AsksByGet fields cfg p act) : LeavesOthers fields lim cfg p act := by
  cases act with
  | send m => trivial
  | run h ans =>
    intro hpend hmethod
    rcases answered_cases lim fields hpend hp.bounded cfg with
      ⟨hsame, -, -, hleft⟩ | ⟨i, hnew, hroute, -⟩
    · exact ⟨hsame, hleft⟩
    · exact absurd (hget hpend hnew (by rw [hroute]; rfl)) hmethod

/-- Where no helper fails, what gets past the checks is answered. -/
theorem asksByGet_of_answered {cfg : Routes} (hp : p.Regular) {act : Act} (hok : HelpersOk p act)
    (hget : ∀ x ∈ answered fields lim cfg p act, x.method = ascii "GET") :
    AsksByGet fields cfg p act := by
  cases act with
  | send m => trivial
  | run h ans =>
    intro hpend hnew hsome
    rcases answered_cases lim fields hpend hp.bounded cfg with
      ⟨-, -, hnone, -⟩ | ⟨i, -, -, -, hanswered⟩
    · rw [hnone hok hnew] at hsome
      cases hsome
    · rw [hanswered, List.forall_mem_singleton] at hget
      exact hget

/-- If every request that gets past the checks is a GET, the answers are the ones the server would
give, and everything else is left to the server. -/
theorem answers_agree (ha : a.Of huffman routes) {acts : List Act}
    (hgets : Runs.Along (Pipe.step lim a.cfg) (AsksByGet fields a.cfg) .new acts)
    (hstreams : Runs.Along (Pipe.step lim a.cfg) AsksOnStream .new acts) :
    (∀ x ∈ Runs.record (Pipe.step lim a.cfg) (answered fields lim a.cfg) .new acts,
      x.Agrees coded huffman routes) ∧
      Runs.Along (Pipe.step lim a.cfg) (LeavesOthers fields lim a.cfg) .new acts := by
  have hboth := (Runs.Along.and _ _).mpr ⟨hgets, hstreams⟩
  constructor
  · exact (hboth.preserves_record
      (J := fun p xs ↦ p.Regular ∧ ∀ x ∈ xs, x.Agrees coded huffman routes)
      (fun p act xs hp hact ↦ ⟨step_regular lim a.cfg hp.1, fun x hx ↦
        (List.mem_append.mp hx).elim (hp.2 x) (answered_agrees ha hp.1 hact.1 hact.2 x)⟩)
      ⟨.new, fun x hx ↦ by cases hx⟩).2
  · exact hgets.of_invariant (I := Pipe.Regular) (fun p act hp _ ↦ step_regular lim a.cfg hp)
      (fun p act hp hget ↦ leavesOthers_of_asksByGet hp hget) .new

/-- Where no helper fails, no other runs are like that. -/
theorem asksByGet_of_agrees {cfg : Routes} {acts : List Act}
    (hok : Runs.Along (Pipe.step lim cfg) HelpersOk .new acts)
    (hall : ∀ x ∈ Runs.record (Pipe.step lim cfg) (answered fields lim cfg) .new acts,
      x.Agrees coded huffman routes) :
    Runs.Along (Pipe.step lim cfg) (AsksByGet fields cfg) .new acts :=
  hok.of_record (fun x ↦ x.method = ascii "GET") (fun _ _ hp _ ↦ step_regular lim cfg hp)
    (fun _ _ hp hact hget ↦ asksByGet_of_answered hp hact hget) .new fun x hx ↦ (hall x hx).1

end HyperFastPath.FastPath
