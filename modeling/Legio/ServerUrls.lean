import Mathlib.Data.List.Induction
import Legio.Base64

set_option linter.style.header false

/-! The URL that a node gives out for its WebSocket server. The mapping library calls back
whenever the mapping of the server's port has changed; the server is then opened again, with the
certificate that the library has by now. What calls of the two libraries return is an input. -/
namespace ServerUrls

open LegioBinary

structure Configuration where
  port : Option UInt16
  externalHost : Option Binary
  externalPort : Option UInt16
  tlsPemCertificate : Option Binary
  tlsPemKey : Option Binary

structure CertificatePair where
  certificate : Binary
  key : Binary

/-- A running `rtc::WebSocketServer`: the port it is bound to, which the system chooses where
port 0 was asked for, and its certificate. -/
structure WebSocketServer where
  port : UInt16
  certPair : Option CertificatePair

structure Server where
  mMappingId : ℤ
  mWebSocketServer : Option WebSocketServer
  mTlsEnabled : Bool
  mExternalHost : Option Binary
  mExternalPort : Option UInt16

structure Written where
  result : ℤ
  buffer : Binary

def bufferSize : ℤ := 8192

def getPlumCertificatePair (certificate key : Written) : Option CertificatePair :=
  if certificate.result < 0 ∨ bufferSize ≤ certificate.result then none
  else if key.result < 0 ∨ bufferSize ≤ key.result then none
  else some ⟨certificate.buffer, key.buffer⟩

def getLocalAddress (address : Written) : Binary :=
  if address.result < 0 then ascii "127.0.0.1" else address.buffer

/-- `createWebSocketServer`, where the library binds the port or fails; the text of an exception
on failure. -/
def Server.createWebSocketServer (s : Server) (certPair : Option CertificatePair)
    (bound : Except String UInt16) : Except String Server :=
  match bound with
  | .error what => .error ("WebSocket server creation failed: " ++ what)
  | .ok port => .ok { s with
      mTlsEnabled := certPair.isSome
      mWebSocketServer := some ⟨port, certPair⟩ }

/-- `updateExternal`, but for the line that it prints. -/
def Server.updateExternal (s : Server) (externalHost : Option Binary)
    (externalPort : Option UInt16) : Server :=
  { s with mExternalHost := externalHost, mExternalPort := externalPort }

def colon : UInt8 := ':'.toUInt8

/-- `generateUrl`, where the library is asked for a local address. -/
def Server.generateUrl (s : Server) (localAddress : Written) : Except Error Binary :=
  match s.mWebSocketServer with
  | none => .error (.runtimeError "WebSocket server is not started")
  | some webSocketServer =>
    let port := s.mExternalPort.getD webSocketServer.port
    let hostname := s.mExternalHost.getD (getLocalAddress localAddress)
    let hostname := if colon ∈ hostname then ascii "[" ++ hostname ++ ascii "]" else hostname
    .ok ((if s.mTlsEnabled then ascii "wss" else ascii "ws") ++ ascii "://" ++ hostname ++
      ascii ":" ++ ascii (toString port.toNat) ++ ascii "/")

def Server.url (s : Server) (localAddress : Written) : Except Error Binary :=
  s.generateUrl localAddress

structure Startup where
  plumInit : ℤ
  dummyTlsHost : Written
  certificate : Written
  key : Written
  bound : Except String UInt16
  mapping : ℤ

def external (config : Configuration) (start : Startup) (externalHost : Binary) :
    Binary × Option CertificatePair :=
  match config.tlsPemCertificate, config.tlsPemKey with
  | some certificate, some key => (externalHost, some ⟨certificate, key⟩)
  | _, _ => (if 0 < start.dummyTlsHost.result then start.dummyTlsHost.buffer else externalHost,
      getPlumCertificatePair start.certificate start.key)

def Server.start (config : Configuration) (start : Startup) : Except String Server :=
  let port := config.port.getD 0
  let s : Server := ⟨-1, none, false, none, none⟩
  if start.plumInit < 0 then .error "Initialization failed"
  else
    match config.externalHost with
    | some externalHost => do
      let (externalHost, certPair) := external config start externalHost
      let s ← s.createWebSocketServer certPair start.bound
      return s.updateExternal (some externalHost) (some (config.externalPort.getD port))
    | none => do
      let s ← s.createWebSocketServer none start.bound
      if start.mapping < 0 then .error "Mapping creation failed"
      else return { s with mMappingId := start.mapping }

def Server.construct (config : Configuration) (start : Startup) : Except Error Server :=
  match Server.start config start with
  | .error what => .error (.runtimeError ("Port mapping failed: " ++ what))
  | .ok s => .ok s

inductive PlumState where
  | success
  | failure
  | other
  deriving DecidableEq

/-- A call of `PlumMappingCallback`, and what the libraries return in it. -/
structure Callback where
  id : ℤ
  state : PlumState
  externalHost : Binary
  externalPort : UInt16
  certificate : Written
  key : Written
  bound : Except String UInt16

def Callback.certPair (c : Callback) : Option CertificatePair :=
  getPlumCertificatePair c.certificate c.key

def Server.plumMappingCallback (s : Server) (c : Callback) : Except String Server :=
  if c.id ≠ s.mMappingId then .ok s
  else
    match c.state with
    | .success => do
      let s ← s.createWebSocketServer c.certPair c.bound
      return s.updateExternal (some c.externalHost) (some c.externalPort)
    | .failure => .ok (s.updateExternal none none)
    | .other => .ok s

/-- A run of callbacks. An exception in one of them is not caught and ends the program. -/
def Server.run (s : Server) (callbacks : List Callback) : Except String Server :=
  callbacks.foldlM Server.plumMappingCallback s

structure Endpoint where
  tls : Bool
  host : Binary
  port : UInt16

/-- Host and port: the port follows the last colon, and a host with a colon has brackets. -/
def readAuthority (tls : Bool) (authority : Binary) : Endpoint :=
  let port := (authority.reverse.takeWhile (· ≠ colon)).reverse
  let host := (authority.reverse.dropWhile (· ≠ colon)).tail.reverse
  { tls
    host := if colon ∈ host then host.tail.dropLast else host
    port := .ofNat (Nat.ofDigitChars 10 (port.map fun c => Char.ofNat c.toNat) 0) }

def readUrl (url : Binary) : Option Endpoint :=
  if (ascii "wss://").isPrefixOf url then some (readAuthority true (url.drop 6).dropLast)
  else if (ascii "ws://").isPrefixOf url then some (readAuthority false (url.drop 5).dropLast)
  else none

theorem digits_text (n : ℕ) :
    ascii (toString n) = (Nat.toDigits 10 n).map fun c => UInt8.ofNat c.toNat := by
  rw [ascii, Nat.toString_eq_repr, Nat.toList_repr]

theorem digit_byte {c : Char} (h : c.isDigit) :
    UInt8.ofNat c.toNat ≠ colon ∧ Char.ofNat (UInt8.ofNat c.toNat).toNat = c := by
  have hrange : c.toNat < 58 := by
    have hle := (Char.isDigit_iff_toNat.mp h).2
    exact Nat.lt_succ_of_le hle
  have hbyte : (UInt8.ofNat c.toNat).toNat = c.toNat := by
    rw [UInt8.toNat_ofNat']
    omega
  constructor
  · intro heq
    have hcolon := congrArg UInt8.toNat heq
    rw [hbyte] at hcolon
    exact absurd hcolon hrange.ne
  · rw [hbyte, Char.ofNat_toNat]

theorem digits_colon (n : ℕ) : colon ∉ ascii (toString n) := by
  rw [digits_text]
  intro hmem
  obtain ⟨c, hc, hbyte⟩ := List.mem_map.mp hmem
  exact (digit_byte (Nat.isDigit_of_mem_toDigits (by decide) (by decide) hc)).1 hbyte

theorem digits_value (n : ℕ) :
    Nat.ofDigitChars 10 ((ascii (toString n)).map fun c => Char.ofNat c.toNat) 0 = n := by
  have hback : (ascii (toString n)).map (fun c => Char.ofNat c.toNat) = Nat.toDigits 10 n := by
    rw [digits_text, List.map_map]
    conv_rhs => rw [← List.map_id (Nat.toDigits 10 n)]
    apply List.map_congr_left
    intro c hc
    exact (digit_byte (Nat.isDigit_of_mem_toDigits (by decide) (by decide) hc)).2
  rw [hback, Nat.ofDigitChars_ten_toDigits]

/-- Brackets go around a host with a colon, so that the port's colon is the last one outside. -/
theorem readAuthority_text (tls : Bool) (host : Binary) (port : UInt16) :
    readAuthority tls ((if colon ∈ host then ascii "[" ++ host ++ ascii "]" else host) ++
      ascii ":" ++ ascii (toString port.toNat)) = ⟨tls, host, port⟩ := by
  set hostname := if colon ∈ host then ascii "[" ++ host ++ ascii "]" else host with hhostname
  set digits := ascii (toString port.toNat) with hdigits
  have hsplit : (hostname ++ ascii ":" ++ digits).reverse =
      digits.reverse ++ colon :: hostname.reverse := by
    rw [List.reverse_append, List.reverse_append]
    rfl
  have hall : ∀ c ∈ digits.reverse, decide (c ≠ colon) = true := by
    intro c hc
    rw [decide_eq_true_iff]
    rintro rfl
    exact digits_colon port.toNat (List.mem_reverse.mp hc)
  have hport : ((hostname ++ ascii ":" ++ digits).reverse.takeWhile (· ≠ colon)).reverse =
      digits := by
    rw [hsplit, List.takeWhile_append_of_pos hall]
    simp
  have hhost : ((hostname ++ ascii ":" ++ digits).reverse.dropWhile (· ≠ colon)).tail.reverse =
      hostname := by
    rw [hsplit, List.dropWhile_append_of_pos hall]
    simp
  have hread : (if colon ∈ hostname then hostname.tail.dropLast else hostname) = host := by
    rw [hhostname]
    split_ifs with hcolon hinside
    · change (host ++ ascii "]").dropLast = host
      exact List.dropLast_concat
    · simp [hcolon] at hinside
    · rfl
  rw [readAuthority, hport, hhost, hread, digits_value, UInt16.ofNat_toNat]

theorem readUrl_secure (authority : Binary) :
    readUrl (ascii "wss://" ++ (authority ++ ascii "/")) = some (readAuthority true authority) := by
  rw [readUrl, if_pos (List.isPrefixOf_iff_prefix.mpr (List.prefix_append _ _))]
  change some (readAuthority true (authority ++ ascii "/").dropLast) = _
  congr 2
  exact List.dropLast_concat

theorem readUrl_plain (authority : Binary) :
    readUrl (ascii "ws://" ++ (authority ++ ascii "/")) = some (readAuthority false authority) := by
  have hplain : ¬ (ascii "wss://").isPrefixOf (ascii "ws://" ++ (authority ++ ascii "/")) := by
    rintro ⟨⟩
  rw [readUrl, if_neg hplain, if_pos (List.isPrefixOf_iff_prefix.mpr (List.prefix_append _ _))]
  change some (readAuthority false (authority ++ ascii "/").dropLast) = _
  congr 2
  exact List.dropLast_concat

/-- Whatever the host is: the URL tells the scheme, the host and the port, and `Node::connect`
takes it for a URL. -/
theorem url_tells {s : Server} {webSocketServer : WebSocketServer}
    (h : s.mWebSocketServer = some webSocketServer) (localAddress : Written) :
    ∃ url, s.url localAddress = .ok url ∧
      readUrl url = some ⟨s.mTlsEnabled, s.mExternalHost.getD (getLocalAddress localAddress),
        s.mExternalPort.getD webSocketServer.port⟩ ∧
      ∀ fuel, Base64.connect fuel url = .returned (.webSocket url) := by
  set host := s.mExternalHost.getD (getLocalAddress localAddress) with hhost
  set port := s.mExternalPort.getD webSocketServer.port with hport
  have hread := readAuthority_text s.mTlsEnabled host port
  set authority := (if colon ∈ host then ascii "[" ++ host ++ ascii "]" else host) ++
    ascii ":" ++ ascii (toString port.toNat) with hauthority
  have hurl : s.url localAddress = .ok ((if s.mTlsEnabled then ascii "wss://" else
      ascii "ws://") ++ (authority ++ ascii "/")) := by
    have hscheme : (if s.mTlsEnabled then ascii "wss" else ascii "ws") ++ ascii "://" =
        if s.mTlsEnabled then ascii "wss://" else ascii "ws://" := by
      cases s.mTlsEnabled <;> rfl
    rw [Server.url, Server.generateUrl, h]
    simp only [← hhost, ← hport, ← hscheme, hauthority, List.append_assoc]
  refine ⟨_, hurl, ?_, fun fuel => ?_⟩
  · rw [← hread]
    cases s.mTlsEnabled with
    | true => exact readUrl_secure authority
    | false => exact readUrl_plain authority
  · have hmatch : ∀ pre : Binary, pre <+: (if s.mTlsEnabled then ascii "wss://" else
        ascii "ws://") → Base64.matchPrefix ((if s.mTlsEnabled then ascii "wss://" else
          ascii "ws://") ++ (authority ++ ascii "/")) pre = true :=
      fun pre hpre => List.isPrefixOf_iff_prefix.mpr (hpre.trans (List.prefix_append _ _))
    rw [Base64.connect, if_pos]
    rw [Bool.or_eq_true]
    cases htls : s.mTlsEnabled with
    | true =>
      rw [htls] at hmatch
      exact Or.inr (hmatch _ ⟨ascii "//", rfl⟩)
    | false =>
      rw [htls] at hmatch
      exact Or.inl (hmatch _ ⟨ascii "//", rfl⟩)

def Callback.succeeds (id : ℤ) (c : Callback) : Bool := c.id = id ∧ c.state = .success

def Callback.settles (id : ℤ) (c : Callback) : Bool := c.id = id ∧ c.state ≠ .other

/-- What the last successful mapping has opened, or else what was there before. -/
def served (before : WebSocketServer) (id : ℤ) (callbacks : List Callback) : WebSocketServer :=
  match (callbacks.filter (Callback.succeeds id)).getLast? with
  | none => before
  | some c => ⟨c.bound.toOption.getD before.port, c.certPair⟩

/-- Host and port of the mapping, as the last call about it tells them. -/
def mapped (before : Option Binary × Option UInt16) (id : ℤ) (callbacks : List Callback) :
    Option Binary × Option UInt16 :=
  match (callbacks.filter (Callback.settles id)).getLast? with
  | none => before
  | some c =>
    if c.state = .success then (some c.externalHost, some c.externalPort) else (none, none)

theorem served_other (before : WebSocketServer) {id : ℤ} (callbacks : List Callback) {c : Callback}
    (h : c.succeeds id = false) :
    served before id (callbacks ++ [c]) = served before id callbacks := by
  simp [served, List.filter_append, h]

theorem served_success (before : WebSocketServer) {id : ℤ} (callbacks : List Callback)
    {c : Callback} (h : c.succeeds id = true) :
    served before id (callbacks ++ [c]) = ⟨c.bound.toOption.getD before.port, c.certPair⟩ := by
  simp [served, List.filter_append, h]

theorem mapped_other (before : Option Binary × Option UInt16) {id : ℤ} (callbacks : List Callback)
    {c : Callback} (h : c.settles id = false) :
    mapped before id (callbacks ++ [c]) = mapped before id callbacks := by
  simp [mapped, List.filter_append, h]

theorem mapped_settled (before : Option Binary × Option UInt16) {id : ℤ} (callbacks : List Callback)
    {c : Callback} (h : c.settles id = true) : mapped before id (callbacks ++ [c]) =
      if c.state = .success then (some c.externalHost, some c.externalPort) else (none, none) := by
  simp [mapped, List.filter_append, h]

structure Runs (s : Server) (id : ℤ) (webSocketServer : WebSocketServer)
    (external : Option Binary × Option UInt16) : Prop where
  mapping : s.mMappingId = id
  server : s.mWebSocketServer = some webSocketServer
  tls : s.mTlsEnabled = webSocketServer.certPair.isSome
  host : s.mExternalHost = external.1
  port : s.mExternalPort = external.2

theorem createWebSocketServer_ok {s s' : Server} {certPair : Option CertificatePair}
    {bound : Except String UInt16} (h : s.createWebSocketServer certPair bound = .ok s') :
    ∃ port, bound = .ok port ∧ s' = { s with
      mTlsEnabled := certPair.isSome
      mWebSocketServer := some ⟨port, certPair⟩ } := by
  cases bound with
  | error what => cases h
  | ok port => exact ⟨port, rfl, (Except.ok.inj h).symm⟩

theorem runs_callback {s s' : Server} {id : ℤ} {before : WebSocketServer}
    {first : Option Binary × Option UInt16} {callbacks : List Callback}
    (h : Runs s id (served before id callbacks) (mapped first id callbacks)) (c : Callback)
    (hc : s.plumMappingCallback c = .ok s') :
    Runs s' id (served before id (callbacks ++ [c])) (mapped first id (callbacks ++ [c])) := by
  rw [Server.plumMappingCallback] at hc
  by_cases hid : c.id = s.mMappingId
  · rw [if_neg (not_not.mpr hid)] at hc
    rw [h.mapping] at hid
    cases hstate : c.state with
    | success =>
      rw [hstate] at hc
      obtain ⟨opened, hcreate, hc⟩ := bind_eq_ok hc
      obtain ⟨port, hbound, rfl⟩ := createWebSocketServer_ok hcreate
      cases hc
      rw [served_success _ _ (by simp [Callback.succeeds, hid, hstate]),
        mapped_settled _ _ (by simp [Callback.settles, hid, hstate]), if_pos hstate]
      refine ⟨h.mapping, ?_, rfl, rfl, rfl⟩
      rw [hbound]
      rfl
    | failure =>
      rw [hstate] at hc
      cases hc
      rw [served_other _ _ (by simp [Callback.succeeds, hstate]),
        mapped_settled _ _ (by simp [Callback.settles, hid, hstate]), if_neg (by simp [hstate])]
      exact ⟨h.mapping, h.server, h.tls, rfl, rfl⟩
    | other =>
      rw [hstate] at hc
      cases hc
      rw [served_other _ _ (by simp [Callback.succeeds, hstate]),
        mapped_other _ _ (by simp [Callback.settles, hstate])]
      exact h
  · rw [if_pos hid] at hc
    cases hc
    rw [h.mapping] at hid
    rw [served_other _ _ (by simp [Callback.succeeds, hid]),
      mapped_other _ _ (by simp [Callback.settles, hid])]
    exact h

theorem runs_run {s : Server} {id : ℤ} {before : WebSocketServer}
    {first : Option Binary × Option UInt16} (h : Runs s id before first)
    (callbacks : List Callback) : ∀ {s'}, s.run callbacks = .ok s' →
      Runs s' id (served before id callbacks) (mapped first id callbacks) := by
  induction callbacks using List.reverseRecOn with
  | nil =>
    intro s' hrun
    cases hrun
    exact h
  | append_singleton callbacks c ih =>
    intro s' hrun
    rw [Server.run, List.foldlM_append] at hrun
    obtain ⟨s₁, hbefore, hlast⟩ := bind_eq_ok hrun
    rw [List.foldlM_cons] at hlast
    obtain ⟨s₂, hcall, hlast⟩ := bind_eq_ok hlast
    cases hlast
    exact runs_callback (ih hbefore) c hcall

/-- The server as its constructor leaves it. A host that the configuration gives is announced
without a mapping, under the configured port also where the system has chosen another one. -/
theorem construct_runs {config : Configuration} {start : Startup} {s : Server}
    (h : Server.construct config start = .ok s) : ∃ port, start.bound = .ok port ∧
      match config.externalHost with
      | some externalHost => Runs s (-1) ⟨port, (external config start externalHost).2⟩
          (some (external config start externalHost).1,
            some (config.externalPort.getD (config.port.getD 0)))
      | none => 0 ≤ start.mapping ∧ Runs s start.mapping ⟨port, none⟩ (none, none) := by
  rw [Server.construct] at h
  cases hbody : Server.start config start with
  | error what =>
    rw [hbody] at h
    cases h
  | ok s' =>
    rw [hbody] at h
    cases h
    rw [Server.start] at hbody
    by_cases hinit : start.plumInit < 0
    · rw [if_pos hinit] at hbody
      cases hbody
    rw [if_neg hinit] at hbody
    cases hhost : config.externalHost with
    | some externalHost =>
      rw [hhost] at hbody
      obtain ⟨opened, hcreate, hbody⟩ := bind_eq_ok hbody
      obtain ⟨port, hbound, rfl⟩ := createWebSocketServer_ok hcreate
      cases hbody
      exact ⟨port, hbound, rfl, rfl, rfl, rfl, rfl⟩
    | none =>
      rw [hhost] at hbody
      obtain ⟨opened, hcreate, hbody⟩ := bind_eq_ok hbody
      obtain ⟨port, hbound, rfl⟩ := createWebSocketServer_ok hcreate
      split_ifs at hbody with hmapping
      cases hbody
      exact ⟨port, hbound, not_lt.mp hmapping, rfl, rfl, rfl, rfl, rfl⟩

/-- Over any run of calls that no exception ends, there is a URL, and it tells the certificate
and the port of the last opening and the address of the last outcome of the server's own mapping,
whatever other mappings are reported; `Node::connect` takes it for a URL. -/
theorem url_current {config : Configuration} {start : Startup} {s₀ s : Server}
    (h : Server.construct config start = .ok s₀) {callbacks : List Callback}
    (hrun : s₀.run callbacks = .ok s) (localAddress : Written) :
    ∃ before url, s₀.mWebSocketServer = some before ∧ s.url localAddress = .ok url ∧
      (let webSocketServer := served before s₀.mMappingId callbacks
      let address := mapped (s₀.mExternalHost, s₀.mExternalPort) s₀.mMappingId callbacks
      readUrl url = some ⟨webSocketServer.certPair.isSome,
        address.1.getD (getLocalAddress localAddress), address.2.getD webSocketServer.port⟩) ∧
      ∀ fuel, Base64.connect fuel url = .returned (.webSocket url) := by
  obtain ⟨before, hbefore⟩ : ∃ before,
      Runs s₀ s₀.mMappingId before (s₀.mExternalHost, s₀.mExternalPort) := by
    obtain ⟨port, _, hruns⟩ := construct_runs h
    split at hruns
    · exact ⟨_, rfl, hruns.server, hruns.tls, rfl, rfl⟩
    · exact ⟨_, rfl, hruns.2.server, hruns.2.tls, rfl, rfl⟩
  have hruns := runs_run hbefore callbacks hrun
  obtain ⟨url, hurl, hread, hconnect⟩ := url_tells hruns.server localAddress
  refine ⟨before, url, hbefore.server, hurl, ?_, hconnect⟩
  rw [hread, hruns.tls, hruns.host, hruns.port]

-- The mapping succeeds, another one fails.
namespace Sample

def config : Configuration := ⟨some 8080, none, none, none, none⟩

def written (text : String) : Written := ⟨text.length, ascii text⟩

def start : Startup := ⟨0, ⟨0, []⟩, ⟨-1, []⟩, ⟨-1, []⟩, .ok 8080, 3⟩

def success : Callback :=
  ⟨3, .success, ascii "2001:db8::1", 40000, written "certificate", written "key", .ok 8080⟩

def foreign : Callback := ⟨4, .failure, [], 0, ⟨-1, []⟩, ⟨-1, []⟩, .ok 0⟩

def constructed : Server := ⟨3, some ⟨8080, none⟩, false, none, none⟩

def mapped : Server :=
  ⟨3, some ⟨8080, some ⟨ascii "certificate", ascii "key"⟩⟩, true, some (ascii "2001:db8::1"),
    some 40000⟩

theorem url_read : ∃ url, mapped.url (written "192.0.2.1") = .ok url ∧
    readUrl url = some ⟨true, ascii "2001:db8::1", 40000⟩ := by
  have hconstruct : Server.construct config start = .ok constructed := by rfl
  have hrun : constructed.run [success, foreign] = .ok mapped := by rfl
  obtain ⟨before, url, _, hurl, hread, _⟩ :=
    url_current hconstruct hrun (written "192.0.2.1")
  exact ⟨url, hurl, hread⟩

example : mapped.url (written "192.0.2.1") = .ok (ascii "wss://[2001:db8::1]:40000/") := by rfl

end Sample

end ServerUrls
