import HyperFastPath.Dummies.Keys
import HyperFastPath.Dummies.System
import HyperFastPath.FastPath.Attach

/-!
# The programs and the recycler

The fast path as it runs: `monitor_sockets`, `skb_verdict` and `msg_verdict` of `fast_path.bpf.c` on
what their contexts say, the maps they share under the keys they are kept under, and the thread of
`dummies.rs` with its clock.
-/

namespace HyperFastPath.Dummies

open FastPath

/-! ## 1. What the programs are run on -/

/-- The states of a socket that `BPF_SOCK_OPS_STATE_CB` tells of. -/
inductive TcpState where
  | established | synSent | synRecv | finWait1 | finWait2 | timeWait | close | closeWait | lastAck
  | listen | closing | newSynRecv
  deriving DecidableEq, Repr

/-- `ops->op`, along with the state in `args[1]`. -/
inductive SockOp where
  | passiveEstablished
  | state (new : TcpState)
  | other
  deriving DecidableEq, Repr

/-- An sk_buff: what it has of a linear part, and its fragments. -/
structure Skb where
  parts : List Message
  bounded : (parts.flatMap fun m ↦ m.1).length < 2 ^ 31

def Skb.bytes (skb : Skb) : List UInt8 := skb.parts.flatMap fun m ↦ m.1

theorem bytes_ne_nil {skb : Skb} (h : skb.parts ≠ []) : skb.bytes ≠ [] := by
  cases hp : skb.parts with
  | nil => exact absurd hp h
  | cons m parts =>
    rw [Skb.bytes, hp, List.flatMap_cons]
    exact List.append_ne_nil_of_left_ne_nil m.2.1 _

/-- What the backlog sends of an sk_buff: a message if it is linear, and one for each part if not.
-/
def Skb.messages (skb : Skb) (linear : Bool) : List Message :=
  if h : skb.parts = [] then []
  else if linear then [⟨skb.bytes, bytes_ne_nil h, skb.bounded⟩]
  else skb.parts

/-- The end of a dummy that is sent on. -/
structure DummySocket where
  loc : SocketAddrV4
  peer : SocketAddrV4
  deriving DecidableEq

def DummySocket.ctx (e : Endian) (d : DummySocket) : SockCtx := .of e d.loc d.peer

/-- `Dummy::key`. -/
def DummySocket.key (e : Endian) (d : DummySocket) : List UInt8 := ((d.ctx e).key e).bytes e

/-! ## 2. The maps -/

/-- What `DummyPool::new` fills. -/
structure DummyMaps where
  dummyMap : Nat → Bool
  dummyIdx : List UInt8 → Option Nat
  freeDummies : List Nat

/-- A turn of its loop, with the addresses of the sender. -/
def DummyMaps.add (e : Endian) (maps : DummyMaps) (idx : Nat) (loc peer : SocketAddr) :
    Except String DummyMaps :=
  match connKey e loc peer with
  | .error msg => .error msg
  | .ok key => .ok
    { dummyMap := Function.update maps.dummyMap idx true
      dummyIdx := Function.update maps.dummyIdx key (some idx)
      freeDummies := maps.freeDummies ++ [idx] }

/-- The turns from dummy `idx` on. -/
def DummyMaps.addAll (e : Endian) (maps : DummyMaps) (idx : Nat) :
    List (SocketAddr × SocketAddr) → Except String DummyMaps
  | [] => .ok maps
  | (loc, peer) :: rest =>
    match maps.add e idx loc peer with
    | .error msg => .error msg
    | .ok maps => maps.addAll e (idx + 1) rest

/-- Where the loop of `recycle` is: at its condition, in `poll`, or at the front of the queue. -/
inductive Phase where
  | condition
  | polling
  | draining
  | stopped
  deriving DecidableEq, Repr

/-- `QUARANTINE`, in nanoseconds. -/
def quarantine : Nat := 100 * 1000000

/-- The size of `released_dummies`. -/
def ringbufSize : Nat := 4096 * 64

/-- What a record of `len` bytes takes up of a ring buffer: eight bytes ahead of it, and a multiple
of eight in all. -/
def ringbufRecord (len : Nat) : Nat := (8 + len + 7) / 8 * 8

/-- `queues`, `psocks` and `tables` are what `System` has of the dummies, the tables under the keys
`dynamic_table_info` has them under.  `times` are the instants in `released`, next to the dummies in
the pool's quarantine.  `closedAt` is when a dummy was last given back. -/
structure Machine where
  pool : Pool
  conns : Ip4Conn → Conn
  delivered : Ip4Conn → Delivered
  queues : Nat → List Message
  psocks : Nat → Psock
  tables : List UInt8 → Option (List HeaderField)
  dummyMap : Nat → Bool
  dummyIdx : List UInt8 → Option Nat
  sockMap : Ip4Conn → Bool
  stateCb : Ip4Conn → Bool
  phase : Phase
  times : List Nat
  now : Nat
  closedAt : Nat → Nat

/-! ## 3. The programs -/

/-- None of the steps of `add_conn` fails. -/
def addsConn (ok : AddStep → Bool) : Bool :=
  ok .setOwner && ok .setConnDummy && ok .setFlags && ok .addSocket

/-- `add_conn`.  The callback for state changes stays on, and the socket in `sock_map`, only if
nothing fails. -/
def Machine.addConn (m : Machine) (key : Ip4Conn) (ok : AddStep → Bool) : Machine :=
  match m.pool.freeDummies with
  | [] => m
  | _ :: _ =>
    { m with
      pool := m.pool.addConn key ok
      stateCb := Function.update m.stateCb key (addsConn ok)
      sockMap := if addsConn ok then Function.update m.sockMap key true else m.sockMap }

/-- Whether `bpf_ringbuf_output` finds room for another record. -/
def Pool.HasRoom (p : Pool) : Prop :=
  ringbufRecord 4 * (p.releasedDummies.length + 1) < ringbufSize

instance (p : Pool) : Decidable p.HasRoom := inferInstanceAs (Decidable (_ < _))

/-- `remove_conn`. -/
def Machine.removeConn (m : Machine) (key : Ip4Conn) : Machine :=
  match m.pool.connDummy key with
  | none => m
  | some dummy =>
    { m with
      pool := m.pool.removeConn key (decide m.pool.HasRoom)
      conns := Function.update m.conns key .new
      closedAt := Function.update m.closedAt dummy m.now }

/-- `monitor_sockets`. -/
def Machine.monitorSockets (e : Endian) (srv : Server) (m : Machine) (op : SockOp) (ctx : SockCtx)
    (ok : AddStep → Bool) : Machine :=
  let skey := ctx.key e
  match op with
  | .other => m
  | .state new => if new = .close then m.removeConn skey else m
  -- a server bound to the unspecified address accepts on all of them
  | .passiveEstablished => if srv.Takes skey then m.addConn skey ok else m

inductive SkbVerdict where
  | pass
  | drop
  | redirect (dummy : Nat) (messages : List Message)

/-- `skb_verdict`.  An sk_buff that cannot be pulled in is redirected as it is. -/
def Machine.skbVerdict (e : Endian) (m : Machine) (ctx : SockCtx) (skb : Skb) (pull : Bool) :
    SkbVerdict :=
  let ikey := ctx.key e
  match m.pool.connDummy ikey with
  | none => .drop
  | some dummy =>
    -- the end of the stream: the backlog would take sending nothing for a broken pipe
    if skb.bytes.length = 0 then .pass
    -- `bpf_sk_redirect_map` finds no socket while the dummy is out of the map
    else if m.dummyMap dummy then .redirect dummy (skb.messages pull)
    else .drop

/-- The pipe dummy `i` is to connection `key`, with the table the parser finds. -/
def Machine.pipe (m : Machine) (key : Ip4Conn) (i : Nat) (table : Option (List HeaderField)) :
    Pipe :=
  { conn := m.conns key, mirror := table.getD [], buf := (m.psocks i).buf,
    left := (m.psocks i).left, dir := (m.psocks i).dir, toUser := (m.delivered key).toUser,
    toClient := (m.delivered key).toClient, log := (m.delivered key).log,
    dropped := (m.psocks i).dead, forGood := (m.delivered key).forGood }

/-- What a step has made of it. -/
def Machine.setPipe (m : Machine) (key : Ip4Conn) (i : Nat) (p : Pipe) : Machine :=
  { m with
    conns := Function.update m.conns key p.conn
    delivered := Function.update m.delivered key
      { toUser := p.toUser, toClient := p.toClient, log := p.log, forGood := p.forGood }
    psocks := Function.update m.psocks i
      { buf := p.buf, left := p.left, dir := p.dir, dead := p.dropped } }

def Machine.setPsock (m : Machine) (i : Nat) (ps : Psock) : Machine :=
  { m with psocks := Function.update m.psocks i ps }

/-- `msg_verdict` on dummy `i`.  It knows the dummy by its address, and so does the parser. -/
def Machine.msgVerdict (lim : Limits) (cfg : Routes) (ps : Parsers) (e : Endian) (m : Machine)
    (i : Nat) (ctx : SockCtx) (h : Helpers) : Machine :=
  let dkey := (ctx.key e).bytes e
  let dropped := m.setPsock i { m.psocks i with dead := true }
  match m.dummyIdx dkey with
  | none => dropped
  | some dummy =>
    let owner := m.pool.dummyOwners dummy
    if owner.active then
      let p := m.pipe owner.conn i (m.tables dkey)
      let p' := p.step lim cfg (.run h (ps.answers p))
      -- only the parser of HTTP/2 keeps a table
      { m.setPipe owner.conn i p' with
        tables := if p.conn.isH2 then Function.update m.tables dkey (some p'.mirror) else m.tables }
    else dropped

/-! ## 4. The recycler -/

/-- The record of a dummy, as `remove_conn` outputs it. -/
def recordOf (e : Endian) (dummy : Nat) : List UInt8 := toNe e (.ofNat dummy)

/-- The callback of `recycle`, on the oldest record there is. -/
def Machine.callback (e : Endian) (m : Machine) : Machine :=
  match m.pool.releasedDummies with
  | [] => m
  | dummy :: rest =>
    let data := recordOf e dummy
    if data.length = 4 then
      { m with
        pool := { m.pool with
          releasedDummies := rest
          quarantine := m.pool.quarantine ++ [(fromNe e data).toNat] }
        times := m.times ++ [m.now] }
    -- a record of any other length is passed over
    else { m with pool := { m.pool with releasedDummies := rest } }

/-- `reset`. -/
def Machine.reset (e : Endian) (socks : List DummySocket) (m : Machine) (i : Nat)
    (ok : ResetStep → Bool) : Machine :=
  let m' :=
    -- what fails leaves the dummy as it is by then, and it is lost to the pool
    match socks[i]? with
    -- there is no such dummy
    | none => m
    | some d =>
      -- with the dummy its psock goes, and comes back as a new one
      if ok .removeDummy = false then m
      else
        let back := ok .takeError && ok .addDummy
        { m with
          psocks := Function.update m.psocks i .new
          dummyMap := Function.update m.dummyMap i back
          tables := if back && ok .clearTable then Function.update m.tables (d.key e) none
            else m.tables }
  { m' with pool := m.pool.reset ok, times := m.times.tail }

/-- `released`. -/
def Machine.released (m : Machine) : List (Nat × Nat) := m.pool.quarantine.zip m.times

/-- The dummy the recycler resets next, if it has been left alone for long enough. -/
def Machine.due (m : Machine) : Option Nat :=
  match m.released with
  | [] => none
  | (i, at_) :: _ => if m.now - at_ < quarantine then none else some i

/-- What happens: a connection is established or changes its state, an sk_buff arrives on one, the
backlog sends the next message on a dummy or the program is run on what there is of one, the
recycler takes a step, or time passes. -/
inductive MachineEvent where
  | established (loc rem : SocketAddrV4) (passive : Bool) (ok : AddStep → Bool)
  | tcpState (loc rem : SocketAddrV4) (new : TcpState)
  | skb (loc rem : SocketAddrV4) (skb : Skb) (pull : Bool)
  | backlog (i : Nat)
  | msg (i : Nat) (h : Helpers)
  | condition (stop : Bool)
  | callback
  | polled (ok : Bool)
  | check (ok : ResetStep → Bool)
  | tick (ns : Nat)

/-- What a machine is set up with.  Sockets that are open at the same time have different addresses,
and `attach` takes so many dummies only. -/
structure Setup where
  endian : Endian
  addr : SocketAddrV4
  socks : List DummySocket
  lim : Limits
  cfg : Routes
  parsers : Parsers
  socks_nodup : socks.Nodup
  socks_le : socks.length ≤ maxDummies

variable (su : Setup)

/-- The key of a socket of the server's host. -/
def Setup.key (loc rem : SocketAddrV4) : Ip4Conn := (SockCtx.of su.endian loc rem).key su.endian

def Setup.server : Server := .of su.endian su.addr

/-- The loop of `DummyPool::new`. -/
def Setup.openDummies : Except String DummyMaps :=
  DummyMaps.addAll su.endian
    { dummyMap := fun _ ↦ false, dummyIdx := fun _ ↦ none, freeDummies := [] } 0
    (su.socks.map fun d ↦ (.v4 d.loc, .v4 d.peer))

/-- The machine once the fast path is attached. -/
def Machine.start (maps : DummyMaps) : Machine :=
  { pool := { Pool.new su.socks.length with freeDummies := maps.freeDummies }
    conns := fun _ ↦ .new, delivered := fun _ ↦ .new
    queues := fun _ ↦ [], psocks := fun _ ↦ .new, tables := fun _ ↦ none
    dummyMap := maps.dummyMap, dummyIdx := maps.dummyIdx
    sockMap := fun _ ↦ false, stateCb := fun _ ↦ false
    phase := .condition, times := [], now := 0, closedAt := fun _ ↦ 0 }

/-- The table the parser keeps for dummy `i`. -/
def Machine.table (m : Machine) (i : Nat) : Option (List HeaderField) :=
  su.socks[i]?.bind fun d ↦ m.tables (d.key su.endian)

/-- The backlog sends `msg` on dummy `i`. -/
def Machine.send (m : Machine) (i : Nat) (msg : Message) (queue : List Message) : Machine :=
  let owner := m.pool.dummyOwners i
  let m' :=
    if owner.active then
      m.setPipe owner.conn i ((m.pipe owner.conn i (m.table su i)).step su.lim su.cfg (.send msg))
    else m.setPsock i ((m.psocks i).skip msg)
  { m' with queues := Function.update m.queues i queue }

def Machine.step (m : Machine) : MachineEvent → Machine
  | .established loc rem passive ok =>
    let key := su.key loc rem
    let op : SockOp := if passive then .passiveEstablished else .other
    let m' := m.monitorSockets su.endian su.server op (.of su.endian loc rem) ok
    if passive ∧ su.server.Takes key then
      { m' with
        pool := { m'.pool with opened := key :: m.pool.opened }
        delivered := Function.update m.delivered key .new }
    else m'
  | .tcpState loc rem new =>
    let key := su.key loc rem
    let m' := if m.stateCb key then
        m.monitorSockets su.endian su.server (.state new) (.of su.endian loc rem) fun _ ↦ true
      else m
    -- with the socket go its flags and its place in `sock_map`
    if new = .close then
      { m' with
        pool := { m'.pool with opened := m.pool.opened.filter (· ≠ key) }
        stateCb := Function.update m'.stateCb key false
        sockMap := Function.update m'.sockMap key false }
    else m'
  | .skb loc rem skb pull =>
    -- the program runs on the sockets that were added
    if m.sockMap (su.key loc rem) then
      match m.skbVerdict su.endian (.of su.endian loc rem) skb pull with
      | .redirect dummy messages =>
        { m with queues := Function.update m.queues dummy (m.queues dummy ++ messages) }
      | _ => m
    else m
  | .backlog i =>
    if (m.psocks i).Busy then m
    else
      match m.queues i with
      | [] => m
      | msg :: queue => m.send su i msg queue
  | .msg i h =>
    match su.socks[i]? with
    | none => m
    | some d =>
      if (m.psocks i).Busy then
        m.msgVerdict su.lim su.cfg su.parsers su.endian i (d.ctx su.endian) h
      else m
  | .condition stop =>
    if m.phase = .condition then { m with phase := if stop then .stopped else .polling } else m
  | .callback => if m.phase = .polling then m.callback su.endian else m
  | .polled ok =>
    if m.phase = .polling then { m with phase := if ok then .draining else .stopped } else m
  | .check ok =>
    if m.phase = .draining then
      match m.due with
      | none => { m with phase := .condition }
      | some i => m.reset su.endian su.socks i ok
    else m
  | .tick ns => { m with now := m.now + ns }

/-! ## 5. What is assumed -/

/-- What a dummy had queued when its connection closed is worked off within the quarantine. -/
def Machine.WorkedOff (m : Machine) : Prop :=
  ∀ i < m.pool.size, (m.pool.dummyOwners i).active = false → m.closedAt i + quarantine ≤ m.now →
    m.queues i = []

instance (m : Machine) : Decidable m.WorkedOff :=
  inferInstanceAs (Decidable (∀ i < m.pool.size, _ → _ → _ = _))

/-- A connection to the server is not established again before its close, and the recycler finds the
dummies worked off. -/
def Admissible (m : Machine) : MachineEvent → Prop
  | .established loc rem _ _ => su.server.Takes (su.key loc rem) → su.key loc rem ∉ m.pool.opened
  | .check _ => m.WorkedOff
  | _ => True

instance (m : Machine) : (ev : MachineEvent) → Decidable (Admissible su m ev)
  | .established _ _ _ _ => inferInstanceAs (Decidable (_ → _))
  | .check _ => inferInstanceAs (Decidable m.WorkedOff)
  | .tcpState _ _ _ | .skb _ _ _ _ | .backlog _ | .msg _ _ => isTrue trivial
  | .condition _ | .callback | .polled _ | .tick _ => isTrue trivial

end HyperFastPath.Dummies
