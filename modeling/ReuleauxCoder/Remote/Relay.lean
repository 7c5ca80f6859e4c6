import Mathlib

/-!
# Peers and tokens of the relay

A peer registers with a bootstrap token and gets a peer token, whose lease its heartbeats
extend.  Every request of the relay's HTTP service names its peer by such a token.  One
request or maintenance step reads the clock once; times are in ticks.
-/

namespace ReuleauxCoder.Remote.Relay

variable {T P : Type} [DecidableEq T] [DecidableEq P]

/-! ## Tokens -/

/-- `_TokenEntry` of a bootstrap token. -/
structure BootstrapEntry where
  expiresAt : ℤ
  used : Bool := false

/-- `_TokenEntry` of a peer token. -/
structure PeerEntry (P : Type) where
  expiresAt : ℤ
  peerId : P

structure TokenManager (T P : Type) where
  bootstrap : T → Option BootstrapEntry := fun _ => none
  peers : T → Option (PeerEntry P) := fun _ => none

namespace TokenManager

def issueBootstrapToken (manager : TokenManager T P) (now : ℤ) (token : T) (ttl : ℤ) :
    TokenManager T P :=
  { manager with
    bootstrap := Function.update manager.bootstrap token (some { expiresAt := now + ttl }) }

def consumeBootstrapToken (manager : TokenManager T P) (now : ℤ) (token : T) :
    Bool × TokenManager T P :=
  match manager.bootstrap token with
  | none => (false, manager)
  | some entry =>
    if entry.used ∨ entry.expiresAt < now then (false, manager)
    else
      (true, { manager with
        bootstrap := Function.update manager.bootstrap token (some { entry with used := true }) })

def issuePeerToken (manager : TokenManager T P) (now : ℤ) (token : T) (peerId : P) (ttl : ℤ) :
    TokenManager T P :=
  { manager with peers := Function.update manager.peers token (some ⟨now + ttl, peerId⟩) }

def verifyPeerToken (manager : TokenManager T P) (now : ℤ) (token : T) : Option P :=
  match manager.peers token with
  | none => none
  | some entry => if entry.expiresAt < now then none else some entry.peerId

def refreshPeerToken (manager : TokenManager T P) (now : ℤ) (token : T) (ttl grace : ℤ) :
    Option P × TokenManager T P :=
  match manager.peers token with
  | none => (none, manager)
  | some entry =>
    if entry.expiresAt + max 0 grace < now then (none, manager)
    else
      (some entry.peerId, { manager with
        peers := Function.update manager.peers token
          (some { entry with expiresAt := now + max 1 ttl }) })

def pruneExpired (manager : TokenManager T P) (now peerGrace : ℤ) : TokenManager T P where
  bootstrap := fun token => (manager.bootstrap token).filter fun entry => now ≤ entry.expiresAt
  peers := fun token =>
    (manager.peers token).filter fun entry => now ≤ entry.expiresAt + max 0 peerGrace

end TokenManager

/-! ## Peers -/

structure PeerInfo where
  lastSeenAt : ℤ
  online : Bool := true

structure PeerRegistry (P : Type) where
  peers : P → Option PeerInfo := fun _ => none

namespace PeerRegistry

def register (registry : PeerRegistry P) (now : ℤ) (peerId : P) : PeerRegistry P :=
  ⟨Function.update registry.peers peerId (some { lastSeenAt := now })⟩

def updateHeartbeat (registry : PeerRegistry P) (now : ℤ) (peerId : P) : PeerRegistry P :=
  match registry.peers peerId with
  | none => registry
  | some _ =>
      ⟨Function.update registry.peers peerId (some { lastSeenAt := now, online := true })⟩

def markDisconnected (registry : PeerRegistry P) (peerId : P) : PeerRegistry P :=
  match registry.peers peerId with
  | none => registry
  | some info =>
      ⟨Function.update registry.peers peerId (some { info with online := false })⟩

/-- The peer is found by `get` and listed by `list_online`. -/
def isOnline (registry : PeerRegistry P) (peerId : P) : Bool :=
  (registry.peers peerId).any PeerInfo.online

def pruneStale (registry : PeerRegistry P) (now timeout : ℤ) : PeerRegistry P :=
  ⟨fun peerId => (registry.peers peerId).map fun info =>
    if info.online ∧ timeout < now - info.lastSeenAt then { info with online := false }
    else info⟩

end PeerRegistry

/-! ## The relay server -/

structure Config where
  heartbeatTimeoutSec : ℤ
  peerTokenTtlSec : ℤ
  minVersion : ℤ := 1
  version : ℤ := 2

namespace Config

/-- `_peer_token_ttl_sec`. -/
def ttl (config : Config) : ℤ := max 1 config.peerTokenTtlSec

/-- `_peer_token_refresh_grace_sec`. -/
def grace (config : Config) : ℤ := max 0 config.heartbeatTimeoutSec

end Config

/-- `inbound` holds the disconnect notices that the event loop has not handled yet. -/
structure RelayServer (T P : Type) where
  tokens : TokenManager T P := {}
  registry : PeerRegistry P := {}
  inbound : List P := []

inductive Reply (T P : Type) where
  | registered (peerId : P) (peerToken : T)
  | rejected
  | badRequest
  | unauthorized
  /-- The token was accepted as this peer's. -/
  | accepted (peerId : P)
  /-- The token was accepted, and then the request was found incomplete. -/
  | incomplete (peerId : P)
  /-- A step of the host. -/
  | done

/-- The endpoints that only check the token before they go to the peer's chats. -/
inductive ChatEndpoint where
  | chat
  | start
  | stream
  | cancel
  | control
  | approvalReply
  | interactionReply
  deriving DecidableEq

/-- Requests, with `none` for a token that the payload lacks, and steps of the host.  The ids
that a registration draws are part of the request. -/
inductive Request (T P : Type) where
  | issueBootstrap (token : T) (ttl : ℤ)
  | register (bootstrapToken : T) (protocolVersion : ℤ) (peerId : P) (peerToken : T)
  | heartbeat (token : T)
  | tokenRefresh (token : Option T)
  | poll (token : Option T)
  | result (token : Option T) (hasRequestId : Bool)
  | chat (endpoint : ChatEndpoint) (token : Option T)
  | disconnect (token : T)
  | handleInbound
  | pruneStale
  | pruneExpired

namespace RelayServer

/-- `_on_register`. -/
def onRegister (config : Config) (server : RelayServer T P) (now : ℤ) (bootstrapToken : T)
    (protocolVersion : ℤ) (peerId : P) (peerToken : T) : Reply T P × RelayServer T P :=
  if config.minVersion ≤ protocolVersion ∧ protocolVersion ≤ config.version then
    match server.tokens.consumeBootstrapToken now bootstrapToken with
    | (false, tokens) => (.rejected, { server with tokens })
    | (true, tokens) =>
      (.registered peerId peerToken,
        { server with
          tokens := tokens.issuePeerToken now peerToken peerId config.ttl
          registry := server.registry.register now peerId })
  else (.rejected, server)

/-- `refresh_peer_token`. -/
def refreshPeerToken (config : Config) (server : RelayServer T P) (now : ℤ) (token : T) :
    Option P × RelayServer T P :=
  let (peerId, tokens) := server.tokens.refreshPeerToken now token config.ttl config.grace
  (peerId.filter fun peerId => server.registry.isOnline peerId, { server with tokens })

/-- `_handle_heartbeat`, and `_handle_token_refresh` once its payload is decoded. -/
def renew (config : Config) (server : RelayServer T P) (now : ℤ) (token : T) :
    Reply T P × RelayServer T P :=
  match server.refreshPeerToken config now token with
  | (none, server) => (.unauthorized, server)
  | (some peerId, server) =>
    (.accepted peerId, { server with registry := server.registry.updateHeartbeat now peerId })

/-- `_handle_token_refresh`. -/
def handleTokenRefresh (config : Config) (server : RelayServer T P) (now : ℤ) :
    Option T → Reply T P × RelayServer T P
  | none => (.badRequest, server)
  | some token => server.renew config now token

def handlePoll (server : RelayServer T P) (now : ℤ) : Option T → Reply T P × RelayServer T P
  | none => (.badRequest, server)
  | some token =>
    match server.tokens.verifyPeerToken now token with
    | none => (.unauthorized, server)
    | some peerId =>
      (.accepted peerId, { server with registry := server.registry.updateHeartbeat now peerId })

/-- What a peer sends back goes to the requests that wait for it. -/
def handleResult (server : RelayServer T P) (now : ℤ) (token : Option T)
    (hasRequestId : Bool) : Reply T P × RelayServer T P :=
  match token.bind (server.tokens.verifyPeerToken now) with
  | none => (.unauthorized, server)
  | some peerId => (if hasRequestId then .accepted peerId else .incomplete peerId, server)

/-- The chat endpoints: `_handle_chat`, `_handle_chat_start` and the others. -/
def handleChat (server : RelayServer T P) (now : ℤ) : Option T → Reply T P × RelayServer T P
  | none => (.badRequest, server)
  | some token =>
    match server.tokens.verifyPeerToken now token with
    | none => (.unauthorized, server)
    | some peerId => (.accepted peerId, server)

def handleDisconnect (server : RelayServer T P) (now : ℤ) (token : T) :
    Reply T P × RelayServer T P :=
  match server.tokens.verifyPeerToken now token with
  | none => (.unauthorized, server)
  | some peerId =>
    (.accepted peerId,
      { server with
        registry := server.registry.markDisconnected peerId
        inbound := server.inbound ++ [peerId] })

/-- `_handle_inbound_async` on the first notice. -/
def handleInbound (server : RelayServer T P) : RelayServer T P :=
  match server.inbound with
  | [] => server
  | peerId :: rest =>
    { server with registry := server.registry.markDisconnected peerId, inbound := rest }

def handle (config : Config) (server : RelayServer T P) (now : ℤ) :
    Request T P → Reply T P × RelayServer T P
  | .issueBootstrap token ttl =>
      (.done, { server with tokens := server.tokens.issueBootstrapToken now token ttl })
  | .register bootstrapToken protocolVersion peerId peerToken =>
      server.onRegister config now bootstrapToken protocolVersion peerId peerToken
  | .heartbeat token => server.renew config now token
  | .tokenRefresh token => server.handleTokenRefresh config now token
  | .poll token => server.handlePoll now token
  | .result token hasRequestId => server.handleResult now token hasRequestId
  | .chat _ token => server.handleChat now token
  | .disconnect token => server.handleDisconnect now token
  | .handleInbound => (.done, server.handleInbound)
  | .pruneStale =>
      (.done,
        { server with registry := server.registry.pruneStale now config.heartbeatTimeoutSec })
  | .pruneExpired =>
      (.done, { server with tokens := server.tokens.pruneExpired now config.grace })

end RelayServer

/-! ## Runs -/

/-- A request, when it was handled, and its reply. -/
structure Exchange (T P : Type) where
  now : ℤ
  request : Request T P
  reply : Reply T P

/-- A relay and what it has answered since it started. -/
structure Session (T P : Type) where
  server : RelayServer T P := {}
  exchanges : List (Exchange T P) := []

def Session.step (config : Config) (session : Session T P) (action : ℤ × Request T P) :
    Session T P :=
  let (reply, server) := session.server.handle config action.1 action.2
  { server, exchanges := session.exchanges ++ [⟨action.1, action.2, reply⟩] }

def run (config : Config) (actions : List (ℤ × Request T P)) : Session T P :=
  actions.foldl (Session.step config) {}

end ReuleauxCoder.Remote.Relay
