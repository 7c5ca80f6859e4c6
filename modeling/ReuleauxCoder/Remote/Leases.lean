import ReuleauxCoder.Remote.Relay

/-!
# Leases told from the exchanges

Which token is accepted, and as whose, can be told from the requests and the replies alone:
registration starts a lease, and each heartbeat or token refresh that comes within the grace
extends it.  That the token manager forgets expired tokens is then not seen, as the clock
does not go back.
-/

namespace ReuleauxCoder.Remote.Relay

open Function List

variable {T P : Type} [DecidableEq T] [DecidableEq P]

/-- A token's peer, and the end of its lease. -/
abbrev Leases (T P : Type) := T → Option (P × ℤ)

/-- The lease of a token moved by a request to extend it. -/
def Leases.extend (config : Config) (leases : Leases T P) (now : ℤ) (token : T) : Leases T P :=
  match leases token with
  | none => leases
  | some (peerId, ends) =>
    if now ≤ ends + config.grace then
      Function.update leases token (some (peerId, now + config.ttl))
    else leases

def Leases.step (config : Config) (leases : Leases T P) (exchange : Exchange T P) :
    Leases T P :=
  match exchange.request, exchange.reply with
  | .register _ _ _ _, .registered peerId peerToken =>
      Function.update leases peerToken (some (peerId, exchange.now + config.ttl))
  | .heartbeat token, _ => leases.extend config exchange.now token
  | .tokenRefresh (some token), _ => leases.extend config exchange.now token
  | _, _ => leases

def leasesOf (config : Config) (exchanges : List (Exchange T P)) : Leases T P :=
  exchanges.foldl (Leases.step config) fun _ => none

/-- The peers that have disconnected and whose tokens no poll has brought since. -/
def leftStep (left : P → Bool) (exchange : Exchange T P) : P → Bool :=
  match exchange.request, exchange.reply with
  | .disconnect _, .accepted peerId => Function.update left peerId true
  | .poll _, .accepted peerId => Function.update left peerId false
  | _, _ => left

def leftOf (exchanges : List (Exchange T P)) : P → Bool :=
  exchanges.foldl leftStep fun _ => false

/-- The peer that a reply accepts a token as. -/
def Reply.peer? : Reply T P → Option P
  | .accepted peerId | .incomplete peerId => some peerId
  | _ => none

/-- The token of a heartbeat or a token refresh. -/
def Request.renews : Request T P → Option T
  | .heartbeat token => some token
  | .tokenRefresh token => token
  | _ => none

/-- The token of any other request that a peer sends. -/
def Request.bears : Request T P → Option T
  | .poll token | .result token _ | .chat _ token => token
  | .disconnect token => some token
  | _ => none

/-- The peer id that a registration draws. -/
def Request.draws : Request T P → Option P
  | .register _ _ peerId _ => some peerId
  | _ => none

/-! ## Tokens and leases -/

theorem grace_nonneg (config : Config) : 0 ≤ config.grace := le_max_left _ _

/-- A token manager agrees with the leases; an expired token may be forgotten. -/
structure TokensAgree (config : Config) (leases : Leases T P) (times : List ℤ)
    (tokens : TokenManager T P) : Prop where
  unknown : ∀ token, leases token = none → tokens.peers token = none
  known : ∀ token peerId ends, leases token = some (peerId, ends) →
    tokens.peers token = some ⟨ends, peerId⟩ ∨
      tokens.peers token = none ∧ ∃ time ∈ times, ends + config.grace < time

variable {config : Config} {leases : Leases T P} {times : List ℤ} {tokens : TokenManager T P}
  {now : ℤ}

omit [DecidableEq T] [DecidableEq P] in
/-- Up to the grace, a token that has a lease has its entry. -/
theorem TokensAgree.within_iff (hagree : TokensAgree config leases times tokens)
    (hclock : ∀ time ∈ times, time ≤ now) (token : T) (peerId : P) {slack : ℤ}
    (hslack : slack ≤ config.grace) :
    (∃ ends, leases token = some (peerId, ends) ∧ now ≤ ends + slack) ↔
      ∃ ends, tokens.peers token = some ⟨ends, peerId⟩ ∧ now ≤ ends + slack := by
  constructor
  · rintro ⟨ends, hlease, hwithin⟩
    rcases hagree.known token peerId ends hlease with hentry | ⟨-, time, hmem, hlate⟩
    · exact ⟨ends, hentry, hwithin⟩
    · have hpast := hclock time hmem
      omega
  · rintro ⟨ends, hentry, hwithin⟩
    cases hlease : leases token with
    | none =>
      rw [hagree.unknown token hlease] at hentry
      cases hentry
    | some lease =>
      rcases hagree.known token lease.1 lease.2 hlease with hknown | ⟨hforgotten, -⟩
      · rw [hknown] at hentry
        cases hentry
        exact ⟨_, rfl, hwithin⟩
      · rw [hforgotten] at hentry
        cases hentry

omit [DecidableEq T] [DecidableEq P] in
/-- A token that has a lease is verified within it. -/
theorem TokensAgree.verify (hagree : TokensAgree config leases times tokens)
    (hclock : ∀ time ∈ times, time ≤ now) (token : T) (peerId : P) :
    tokens.verifyPeerToken now token = some peerId ↔
      ∃ ends, leases token = some (peerId, ends) ∧ now ≤ ends := by
  have hwithin := hagree.within_iff hclock token peerId (grace_nonneg config)
  simp only [add_zero] at hwithin
  rw [hwithin, TokenManager.verifyPeerToken]
  rcases tokens.peers token with _ | ⟨ends, owner⟩
  · simp
  · simp only [PeerEntry.mk.injEq, Option.some.injEq]
    split <;> simp <;> omega

omit [DecidableEq P] in
/-- A token that has a lease is refreshed within its grace. -/
theorem TokensAgree.refresh (hagree : TokensAgree config leases times tokens)
    (hclock : ∀ time ∈ times, time ≤ now) (token : T) (peerId : P) :
    (tokens.refreshPeerToken now token config.ttl config.grace).1 = some peerId ↔
      ∃ ends, leases token = some (peerId, ends) ∧ now ≤ ends + config.grace := by
  rw [hagree.within_iff hclock token peerId le_rfl, TokenManager.refreshPeerToken,
    max_eq_right (grace_nonneg config)]
  rcases tokens.peers token with _ | ⟨ends, owner⟩
  · simp
  · simp only [PeerEntry.mk.injEq, Option.some.injEq]
    split <;> simp <;> omega

omit [DecidableEq T] [DecidableEq P] in
theorem TokensAgree.later (hagree : TokensAgree config leases times tokens) :
    TokensAgree config leases (times ++ [now]) tokens where
  unknown := hagree.unknown
  known := by
    intro token peerId ends hlease
    rcases hagree.known token peerId ends hlease with hentry | ⟨hnone, time, hmem, hlate⟩
    · exact .inl hentry
    · exact .inr ⟨hnone, time, mem_append_left _ hmem, hlate⟩

omit [DecidableEq P] in
theorem TokensAgree.issue (hagree : TokensAgree config leases times tokens) (token : T)
    (peerId : P) (ttl : ℤ) :
    TokensAgree config (Function.update leases token (some (peerId, now + ttl))) times
      (tokens.issuePeerToken now token peerId ttl) where
  unknown := by
    intro other hlease
    by_cases heq : other = token
    · subst heq
      simp at hlease
    · simp only [TokenManager.issuePeerToken, update_of_ne heq] at hlease ⊢
      exact hagree.unknown other hlease
  known := by
    intro other owner ends hlease
    by_cases heq : other = token
    · subst heq
      simp only [update_self, Option.some.injEq, Prod.mk.injEq] at hlease
      obtain ⟨rfl, rfl⟩ := hlease
      exact .inl (by simp [TokenManager.issuePeerToken])
    · simp only [TokenManager.issuePeerToken, update_of_ne heq] at hlease ⊢
      exact hagree.known other owner ends hlease

omit [DecidableEq T] [DecidableEq P] in
/-- Only an entry past its grace is pruned. -/
theorem TokensAgree.prune (hagree : TokensAgree config leases times tokens) :
    TokensAgree config leases (times ++ [now]) (tokens.pruneExpired now config.grace) where
  unknown := by
    intro token hlease
    simp [TokenManager.pruneExpired, hagree.unknown token hlease]
  known := by
    intro token peerId ends hlease
    have hgrace := grace_nonneg config
    simp only [TokenManager.pruneExpired, max_eq_right hgrace]
    rcases hagree.known token peerId ends hlease with hentry | ⟨hnone, time, hmem, hlate⟩
    · by_cases hkept : now ≤ ends + config.grace
      · exact .inl (by simp [hentry, Option.filter, hkept])
      · refine .inr ⟨by simp [hentry, Option.filter, hkept], now, ?_, by omega⟩
        exact mem_append_right _ (mem_singleton_self now)
    · exact .inr ⟨by simp [hnone], time, mem_append_left _ hmem, hlate⟩

omit [DecidableEq P] in
/-- A request to extend a lease moves it in the token manager too. -/
theorem TokensAgree.extend (hagree : TokensAgree config leases times tokens)
    (hclock : ∀ time ∈ times, time ≤ now) (token : T) :
    TokensAgree config (leases.extend config now token) times
      (tokens.refreshPeerToken now token config.ttl config.grace).2 := by
  have hgrace := grace_nonneg config
  have httl : max 1 config.ttl = config.ttl := max_eq_right (le_max_left _ _)
  rw [Leases.extend, TokenManager.refreshPeerToken]
  cases hlease : leases token with
  | none =>
    rw [hagree.unknown token hlease]
    exact hagree
  | some lease =>
    obtain ⟨owner, ends⟩ := lease
    rcases hagree.known token owner ends hlease with hentry | ⟨hforgotten, time, hmem, hlate⟩
    · simp only [hentry, max_eq_right hgrace, httl]
      by_cases hintime : now ≤ ends + config.grace
      · rw [if_pos hintime, if_neg (by omega)]
        exact hagree.issue token owner config.ttl
      · rw [if_neg hintime, if_pos (by omega)]
        exact hagree
    · have := hclock time hmem
      rw [hforgotten]
      simp only
      rw [if_neg (by omega)]
      exact hagree

/-! ## Who is online -/

theorem isOnline_updateHeartbeat (registry : PeerRegistry P) (now : ℤ) (peerId other : P) :
    (registry.updateHeartbeat now peerId).isOnline other = true →
      other = peerId ∨ registry.isOnline other = true := by
  rw [PeerRegistry.updateHeartbeat]
  cases registry.peers peerId with
  | none => exact .inr
  | some info =>
    by_cases heq : other = peerId
    · exact fun _ => .inl heq
    · simp only [PeerRegistry.isOnline, update_of_ne heq]
      exact .inr

theorem isOnline_register (registry : PeerRegistry P) (now : ℤ) (peerId other : P) :
    (registry.register now peerId).isOnline other = true →
      other = peerId ∨ registry.isOnline other = true := by
  by_cases heq : other = peerId
  · exact fun _ => .inl heq
  · simp only [PeerRegistry.register, PeerRegistry.isOnline, update_of_ne heq]
    exact .inr

theorem isOnline_markDisconnected (registry : PeerRegistry P) (peerId other : P) :
    (registry.markDisconnected peerId).isOnline other = true →
      other ≠ peerId ∧ registry.isOnline other = true := by
  rw [PeerRegistry.markDisconnected]
  cases hinfo : registry.peers peerId with
  | none =>
    intro honline
    refine ⟨?_, honline⟩
    rintro rfl
    simp [PeerRegistry.isOnline, hinfo] at honline
  | some info =>
    by_cases heq : other = peerId
    · subst heq
      simp [PeerRegistry.isOnline]
    · simp only [PeerRegistry.isOnline, update_of_ne heq]
      exact fun honline => ⟨heq, honline⟩

omit [DecidableEq P] in
theorem isOnline_pruneStale (registry : PeerRegistry P) (now timeout : ℤ) (other : P) :
    (registry.pruneStale now timeout).isOnline other = true → registry.isOnline other = true := by
  simp only [PeerRegistry.isOnline, PeerRegistry.pruneStale]
  cases registry.peers other with
  | none => simp
  | some info =>
    simp only [Option.map_some, Option.any_some]
    split
    · simp
    · exact id

/-! ## The relay and its exchanges -/

def drawnOf (actions : List (ℤ × Request T P)) : List P :=
  actions.filterMap fun action => action.2.draws

structure Agrees (config : Config) (actions : List (ℤ × Request T P)) (session : Session T P) :
    Prop where
  tokens : TokensAgree config (leasesOf config session.exchanges) (actions.map Prod.fst)
    session.server.tokens
  offline : ∀ peerId, leftOf session.exchanges peerId = true →
    session.server.registry.isOnline peerId = false
  drawn : ∀ token peerId ends,
    leasesOf config session.exchanges token = some (peerId, ends) → peerId ∈ drawnOf actions
  leftDrawn : ∀ peerId, leftOf session.exchanges peerId = true → peerId ∈ drawnOf actions

omit [DecidableEq P] in
theorem leasesOf_append (config : Config) (exchanges : List (Exchange T P))
    (exchange : Exchange T P) :
    leasesOf config (exchanges ++ [exchange]) =
      (leasesOf config exchanges).step config exchange := by
  simp [leasesOf, foldl_append]

omit [DecidableEq T] in
theorem leftOf_append (exchanges : List (Exchange T P)) (exchange : Exchange T P) :
    leftOf (exchanges ++ [exchange]) = leftStep (leftOf exchanges) exchange := by
  simp [leftOf, foldl_append]

variable {actions : List (ℤ × Request T P)} {session : Session T P} {request : Request T P}
  {reply : Reply T P} {server : RelayServer T P}

/-- What one exchange has to keep. -/
theorem agrees_next
    (htokens : TokensAgree config
      ((leasesOf config session.exchanges).step config ⟨now, request, reply⟩)
      (actions.map Prod.fst ++ [now]) server.tokens)
    (honline : ∀ peerId, leftStep (leftOf session.exchanges) ⟨now, request, reply⟩ peerId = true →
      server.registry.isOnline peerId = false)
    (hdrawn : ∀ token peerId ends,
      (leasesOf config session.exchanges).step config ⟨now, request, reply⟩ token =
        some (peerId, ends) → peerId ∈ drawnOf actions ∨ request.draws = some peerId)
    (hleft : ∀ peerId, leftStep (leftOf session.exchanges) ⟨now, request, reply⟩ peerId = true →
      peerId ∈ drawnOf actions) :
    Agrees config (actions ++ [(now, request)])
      ⟨server, session.exchanges ++ [⟨now, request, reply⟩]⟩ where
  tokens := by
    rw [leasesOf_append, map_append]
    exact htokens
  offline := by
    intro peerId
    rw [leftOf_append]
    exact honline peerId
  drawn := by
    intro token peerId ends
    rw [leasesOf_append, drawnOf, filterMap_append, mem_append]
    intro hlease
    rcases hdrawn token peerId ends hlease with hold | hnew
    · exact .inl hold
    · exact .inr (by simp [hnew])
  leftDrawn := by
    intro peerId
    rw [leftOf_append, drawnOf, filterMap_append, mem_append]
    exact fun hpeer => .inl (hleft peerId hpeer)

/-- A request that changes neither leases nor who has left. -/
theorem Agrees.quiet (hagrees : Agrees config actions session)
    (hlease : (leasesOf config session.exchanges).step config ⟨now, request, reply⟩ =
      leasesOf config session.exchanges)
    (hleft : leftStep (leftOf session.exchanges) ⟨now, request, reply⟩ = leftOf session.exchanges)
    (htokens : TokensAgree config (leasesOf config session.exchanges)
      (actions.map Prod.fst ++ [now]) server.tokens)
    (honline : ∀ peerId, server.registry.isOnline peerId = true →
      session.server.registry.isOnline peerId = true) :
    Agrees config (actions ++ [(now, request)])
      ⟨server, session.exchanges ++ [⟨now, request, reply⟩]⟩ := by
  refine agrees_next (by rwa [hlease]) ?_ ?_ ?_
  · intro peerId hpeer
    rw [hleft] at hpeer
    have hoffline := hagrees.offline peerId hpeer
    rw [Bool.eq_false_iff] at hoffline ⊢
    exact fun honlineNow => hoffline (honline peerId honlineNow)
  · intro token peerId ends hentry
    rw [hlease] at hentry
    exact .inl (hagrees.drawn token peerId ends hentry)
  · intro peerId hpeer
    rw [hleft] at hpeer
    exact hagrees.leftDrawn peerId hpeer

/-- What a request to extend a lease does to the relay. -/
theorem renew_eq (config : Config) (server : RelayServer T P) (now : ℤ) (token : T) :
    (server.renew config now token).2.tokens =
        (server.tokens.refreshPeerToken now token config.ttl config.grace).2 ∧
      ((server.renew config now token).1 = .unauthorized ∧
          (server.renew config now token).2.registry = server.registry ∨
        ∃ peerId, server.registry.isOnline peerId = true ∧
          (server.renew config now token).1 = .accepted peerId ∧
          (server.renew config now token).2.registry =
            server.registry.updateHeartbeat now peerId) := by
  cases hfound : (server.tokens.refreshPeerToken now token config.ttl config.grace).1 with
  | none => simp [RelayServer.renew, RelayServer.refreshPeerToken, hfound]
  | some peerId =>
    by_cases honline : server.registry.isOnline peerId = true
    · simp [RelayServer.renew, RelayServer.refreshPeerToken, hfound, Option.filter, honline]
    · simp [RelayServer.renew, RelayServer.refreshPeerToken, hfound, Option.filter, honline]

variable {peerId : P} {token : T}

omit [DecidableEq P] in
/-- Extending leases changes no token's peer. -/
theorem extend_owner {other : T} {ends : ℤ}
    (hentry : leases.extend config now token other = some (peerId, ends)) :
    ∃ before, leases other = some (peerId, before) := by
  rw [Leases.extend] at hentry
  cases hlease : leases token with
  | none =>
    simp only [hlease] at hentry
    exact ⟨ends, hentry⟩
  | some lease =>
    obtain ⟨owner, before⟩ := lease
    simp only [hlease] at hentry
    split at hentry
    · by_cases heq : other = token
      · subst heq
        simp only [update_self, Option.some.injEq, Prod.mk.injEq] at hentry
        exact ⟨before, by rw [hlease, hentry.1]⟩
      · rw [update_of_ne heq] at hentry
        exact ⟨ends, hentry⟩
    · exact ⟨ends, hentry⟩

theorem Agrees.renew (hagrees : Agrees config actions session)
    (hclock : ∀ time ∈ actions.map Prod.fst, time ≤ now)
    (hlease : ∀ reply, (leasesOf config session.exchanges).step config ⟨now, request, reply⟩ =
      (leasesOf config session.exchanges).extend config now token)
    (hleft : ∀ reply, leftStep (leftOf session.exchanges) ⟨now, request, reply⟩ =
      leftOf session.exchanges) :
    Agrees config (actions ++ [(now, request)])
      ⟨(session.server.renew config now token).2,
        session.exchanges ++ [⟨now, request, (session.server.renew config now token).1⟩]⟩ := by
  obtain ⟨htokens, hregistry⟩ := renew_eq config session.server now token
  refine agrees_next ?_ ?_ ?_ ?_
  · rw [hlease, htokens]
    exact (hagrees.tokens.extend hclock token).later
  · intro peerId hpeer
    rw [hleft] at hpeer
    have hoffline := hagrees.offline peerId hpeer
    rcases hregistry with ⟨_, hsame⟩ | ⟨owner, howner, _, hupdate⟩
    · rwa [hsame]
    · rw [Bool.eq_false_iff, hupdate]
      intro honline
      rcases isOnline_updateHeartbeat _ now owner peerId honline with rfl | hbefore
      · exact absurd howner (by rw [hoffline]; exact Bool.false_ne_true)
      · exact absurd hbefore (by rw [hoffline]; exact Bool.false_ne_true)
  · intro other peerId ends hentry
    rw [hlease] at hentry
    obtain ⟨before, hbefore⟩ := extend_owner hentry
    exact .inl (hagrees.drawn other peerId before hbefore)
  · intro peerId hpeer
    rw [hleft] at hpeer
    exact hagrees.leftDrawn peerId hpeer

omit [DecidableEq T] [DecidableEq P] in
/-- Leases agree with the peers' tokens alone. -/
theorem TokensAgree.congr (hagree : TokensAgree config leases times tokens)
    {others : TokenManager T P} (hpeers : others.peers = tokens.peers) :
    TokensAgree config leases times others where
  unknown := fun token hlease => by rw [hpeers, hagree.unknown token hlease]
  known := fun token peerId ends hlease => by
    rw [hpeers]
    exact hagree.known token peerId ends hlease

omit [DecidableEq P] in
theorem peers_consumeBootstrapToken (tokens : TokenManager T P) (now : ℤ) (token : T) :
    (tokens.consumeBootstrapToken now token).2.peers = tokens.peers := by
  rw [TokenManager.consumeBootstrapToken]
  cases tokens.bootstrap token with
  | none => rfl
  | some entry =>
    simp only
    split <;> rfl

/-- What a registration does to the relay. -/
theorem onRegister_eq (config : Config) (server : RelayServer T P) (now : ℤ)
    (bootstrapToken : T) (protocolVersion : ℤ) (peerId : P) (peerToken : T) :
    let result := server.onRegister config now bootstrapToken protocolVersion peerId peerToken
    (result.1 = .rejected ∧ result.2.registry = server.registry ∧
        result.2.tokens.peers = server.tokens.peers) ∨
      result.1 = .registered peerId peerToken ∧
        result.2.registry = server.registry.register now peerId ∧
        ∃ tokens : TokenManager T P, tokens.peers = server.tokens.peers ∧
          result.2.tokens = tokens.issuePeerToken now peerToken peerId config.ttl := by
  have hpeers := peers_consumeBootstrapToken server.tokens now bootstrapToken
  intro result
  simp only [result, RelayServer.onRegister]
  split
  · generalize server.tokens.consumeBootstrapToken now bootstrapToken = consumed at hpeers ⊢
    obtain ⟨_ | _, tokens⟩ := consumed
    · exact .inl ⟨rfl, rfl, hpeers⟩
    · exact .inr ⟨rfl, rfl, tokens, hpeers, rfl⟩
  · exact .inl ⟨rfl, rfl, rfl⟩

theorem Agrees.register (hagrees : Agrees config actions session) {bootstrapToken : T}
    {protocolVersion : ℤ} {peerToken : T} (hfresh : peerId ∉ drawnOf actions) :
    Agrees config
      (actions ++ [(now, .register bootstrapToken protocolVersion peerId peerToken)])
      (session.step config (now, .register bootstrapToken protocolVersion peerId peerToken)) := by
  simp only [Session.step, RelayServer.handle]
  rcases onRegister_eq config session.server now bootstrapToken protocolVersion peerId peerToken
    with ⟨hreply, hregistry, hpeers⟩ | ⟨hreply, hregistry, tokens, hpeers, htokens⟩
  · rw [hreply]
    exact hagrees.quiet rfl rfl (hagrees.tokens.later.congr hpeers)
      (fun other honline => by rwa [hregistry] at honline)
  · rw [hreply]
    refine agrees_next ?_ ?_ ?_ (fun other hleft => hagrees.leftDrawn other hleft)
    · rw [htokens]
      exact (hagrees.tokens.later.congr hpeers).issue peerToken peerId config.ttl
    · intro other hleft
      have hoffline := hagrees.offline other hleft
      rw [Bool.eq_false_iff, hregistry]
      intro honline
      rcases isOnline_register _ now peerId other honline with rfl | hbefore
      · exact hfresh (hagrees.leftDrawn other hleft)
      · rw [hoffline] at hbefore
        cases hbefore
    · intro token owner ends hentry
      by_cases heq : token = peerToken
      · subst heq
        simp only [Leases.step, update_self, Option.some.injEq, Prod.mk.injEq] at hentry
        exact .inr (by rw [Request.draws, hentry.1])
      · simp only [Leases.step, update_of_ne heq] at hentry
        exact .inl (hagrees.drawn token owner ends hentry)

theorem Agrees.poll (hagrees : Agrees config actions session) (token : Option T) :
    Agrees config (actions ++ [(now, .poll token)])
      (session.step config (now, .poll token)) := by
  simp only [Session.step, RelayServer.handle]
  cases token with
  | none => exact hagrees.quiet rfl rfl hagrees.tokens.later (fun _ honline => honline)
  | some token =>
    rw [RelayServer.handlePoll]
    cases session.server.tokens.verifyPeerToken now token with
    | none => exact hagrees.quiet rfl rfl hagrees.tokens.later (fun _ honline => honline)
    | some owner =>
      refine agrees_next hagrees.tokens.later ?_
        (fun other peerId ends hentry => .inl (hagrees.drawn other peerId ends hentry)) ?_
      · intro peerId hleft
        by_cases heq : peerId = owner
        · subst heq
          simp [leftStep] at hleft
        · simp only [leftStep, update_of_ne heq] at hleft
          have hoffline := hagrees.offline peerId hleft
          rw [Bool.eq_false_iff]
          intro honline
          rcases isOnline_updateHeartbeat _ now owner peerId honline with hsame | hbefore
          · exact heq hsame
          · rw [hoffline] at hbefore
            cases hbefore
      · intro peerId hleft
        by_cases heq : peerId = owner
        · subst heq
          simp [leftStep] at hleft
        · simp only [leftStep, update_of_ne heq] at hleft
          exact hagrees.leftDrawn peerId hleft

theorem Agrees.disconnect (hagrees : Agrees config actions session)
    (hclock : ∀ time ∈ actions.map Prod.fst, time ≤ now) (token : T) :
    Agrees config (actions ++ [(now, .disconnect token)])
      (session.step config (now, .disconnect token)) := by
  simp only [Session.step, RelayServer.handle, RelayServer.handleDisconnect]
  cases hverify : session.server.tokens.verifyPeerToken now token with
  | none => exact hagrees.quiet rfl rfl hagrees.tokens.later (fun _ honline => honline)
  | some owner =>
    obtain ⟨ends, hlease, _⟩ := (hagrees.tokens.verify hclock token owner).mp hverify
    refine agrees_next hagrees.tokens.later ?_
      (fun other peerId ends hentry => .inl (hagrees.drawn other peerId ends hentry)) ?_
    · intro peerId hleft
      rw [Bool.eq_false_iff]
      intro honline
      obtain ⟨hne, hbefore⟩ := isOnline_markDisconnected _ owner peerId honline
      simp only [leftStep, update_of_ne hne] at hleft
      rw [hagrees.offline peerId hleft] at hbefore
      cases hbefore
    · intro peerId hleft
      by_cases heq : peerId = owner
      · exact heq ▸ hagrees.drawn token owner ends hlease
      · simp only [leftStep, update_of_ne heq] at hleft
        exact hagrees.leftDrawn peerId hleft

omit [DecidableEq T] in
theorem isOnline_handleInbound {server : RelayServer T P}
    (honline : server.handleInbound.registry.isOnline peerId = true) :
    server.registry.isOnline peerId = true := by
  rw [RelayServer.handleInbound] at honline
  cases hinbound : server.inbound with
  | nil => simpa [hinbound] using honline
  | cons owner rest =>
    simp only [hinbound] at honline
    exact (isOnline_markDisconnected _ owner peerId honline).2

/-- One request, answered not before the others and with a fresh identifier, keeps the server in
step with the leases of its requests. -/
theorem Agrees.step (hagrees : Agrees config actions session)
    (hclock : ∀ time ∈ actions.map Prod.fst, time ≤ now)
    (hfresh : ∀ peerId, request.draws = some peerId → peerId ∉ drawnOf actions) :
    Agrees config (actions ++ [(now, request)]) (session.step config (now, request)) := by
  cases request with
  | issueBootstrap token ttl =>
    exact hagrees.quiet rfl rfl (hagrees.tokens.later.congr rfl) (fun _ honline => honline)
  | register bootstrapToken protocolVersion peerId peerToken =>
    exact hagrees.register (hfresh peerId rfl)
  | heartbeat token => exact hagrees.renew hclock (fun _ => rfl) (fun _ => rfl)
  | tokenRefresh token =>
    cases token with
    | none => exact hagrees.quiet rfl rfl hagrees.tokens.later (fun _ honline => honline)
    | some token => exact hagrees.renew hclock (fun _ => rfl) (fun _ => rfl)
  | poll token => exact hagrees.poll token
  | result token hasRequestId =>
    simp only [Session.step, RelayServer.handle, RelayServer.handleResult]
    cases token.bind (session.server.tokens.verifyPeerToken now) with
    | none => exact hagrees.quiet rfl rfl hagrees.tokens.later (fun _ honline => honline)
    | some owner => exact hagrees.quiet rfl rfl hagrees.tokens.later (fun _ honline => honline)
  | chat endpoint token =>
    simp only [Session.step, RelayServer.handle]
    cases token with
    | none => exact hagrees.quiet rfl rfl hagrees.tokens.later (fun _ honline => honline)
    | some token =>
      rw [RelayServer.handleChat]
      cases session.server.tokens.verifyPeerToken now token with
      | none => exact hagrees.quiet rfl rfl hagrees.tokens.later (fun _ honline => honline)
      | some owner => exact hagrees.quiet rfl rfl hagrees.tokens.later (fun _ honline => honline)
  | disconnect token => exact hagrees.disconnect hclock token
  | handleInbound =>
    refine hagrees.quiet rfl rfl (hagrees.tokens.later.congr ?_)
      (fun _ honline => isOnline_handleInbound honline)
    rw [RelayServer.handleInbound]
    cases session.server.inbound <;> rfl
  | pruneStale =>
    exact hagrees.quiet rfl rfl hagrees.tokens.later (fun _ => isOnline_pruneStale _ _ _ _)
  | pruneExpired =>
    exact hagrees.quiet rfl rfl hagrees.tokens.prune (fun _ honline => honline)

/-! ## Whole runs -/

/-- By induction from the last request, at whose arrival the server agrees with the leases of all
the others. -/
theorem run_agrees (config : Config) (actions : List (ℤ × Request T P))
    (hclock : (actions.map Prod.fst).Pairwise (· ≤ ·)) (hdrawn : (drawnOf actions).Nodup) :
    Agrees config actions (run config actions) := by
  induction actions using List.reverseRecOn with
  | nil =>
    exact
      { tokens := ⟨fun _ _ => rfl, fun _ _ _ => nofun⟩
        offline := fun _ => nofun
        drawn := fun _ _ _ => nofun
        leftDrawn := fun _ => nofun }
  | append_singleton actions action ih =>
    obtain ⟨now, request⟩ := action
    rw [map_append, pairwise_append] at hclock
    rw [drawnOf, filterMap_append, nodup_append] at hdrawn
    rw [run, foldl_append]
    refine (ih hclock.1 hdrawn.1).step (fun time htime => hclock.2.2 time htime now ?_) ?_
    · exact mem_singleton_self now
    · intro peerId hdraws hold
      exact hdrawn.2.2 peerId hold peerId (by simp [hdraws]) rfl

/-- The reply to a request after a run. -/
def answer (config : Config) (before : List (ℤ × Request T P)) (now : ℤ)
    (request : Request T P) : Reply T P :=
  ((run config before).server.handle config now request).1

/-- A peer of which a disconnect has been handled. -/
def goneOf (exchanges : List (Exchange T P)) (peerId : P) : Prop :=
  ∃ exchange ∈ exchanges, ∃ token,
    exchange.request = .disconnect token ∧ exchange.reply.peer? = some peerId

/-- How a request is answered, told from the exchanges before it.  The first two fields bound
what is accepted at any time; the last two say that it is accepted, as long as no disconnect
of the peer has been handled. -/
structure Answered (config : Config) (before : List (ℤ × Request T P)) (now : ℤ)
    (request : Request T P) : Prop where
  onlyRenews : ∀ token, request.renews = some token → ∀ peerId,
    (answer config before now request).peer? = some peerId →
      ∃ ends, leasesOf config (run config before).exchanges token = some (peerId, ends) ∧
        now ≤ ends + config.grace ∧
          (run config before).server.registry.isOnline peerId = true
  onlyBears : ∀ token, request.bears = some token → ∀ peerId,
    (answer config before now request).peer? = some peerId →
      ∃ ends, leasesOf config (run config before).exchanges token = some (peerId, ends) ∧
        now ≤ ends
  renews : ∀ token, request.renews = some token → ∀ peerId ends,
    leasesOf config (run config before).exchanges token = some (peerId, ends) →
      ¬goneOf (run config before).exchanges peerId → now ≤ ends + config.grace →
        (run config before).server.registry.isOnline peerId = true →
          (answer config before now request).peer? = some peerId
  bears : ∀ token, request.bears = some token → ∀ peerId ends,
    leasesOf config (run config before).exchanges token = some (peerId, ends) →
      ¬goneOf (run config before).exchanges peerId → now ≤ ends →
        (answer config before now request).peer? = some peerId

theorem peer?_renew (config : Config) (server : RelayServer T P) (now : ℤ) (token : T)
    (peerId : P) :
    (server.renew config now token).1.peer? = some peerId ↔
      (server.tokens.refreshPeerToken now token config.ttl config.grace).1 = some peerId ∧
        server.registry.isOnline peerId = true := by
  cases hfound : (server.tokens.refreshPeerToken now token config.ttl config.grace).1 with
  | none => simp [RelayServer.renew, RelayServer.refreshPeerToken, hfound, Reply.peer?]
  | some owner =>
    by_cases honline : server.registry.isOnline owner = true
    · simp only [RelayServer.renew, RelayServer.refreshPeerToken, hfound, Option.filter, honline,
        if_true, Reply.peer?, Option.some.injEq]
      exact ⟨fun heq => ⟨heq, heq ▸ honline⟩, fun hboth => hboth.1⟩
    · simp only [RelayServer.renew, RelayServer.refreshPeerToken, hfound, Option.filter, honline,
        Bool.false_eq_true, if_false, Reply.peer?, reduceCtorEq, Option.some.injEq, false_iff,
        not_and]
      rintro rfl
      exact honline

omit [DecidableEq T] in
theorem peer?_poll (server : RelayServer T P) (now : ℤ) (token : T) :
    (server.handlePoll now (some token)).1.peer? = server.tokens.verifyPeerToken now token := by
  rw [RelayServer.handlePoll]
  cases server.tokens.verifyPeerToken now token <;> rfl

omit [DecidableEq T] [DecidableEq P] in
theorem peer?_result (server : RelayServer T P) (now : ℤ) (token : T) (hasRequestId : Bool) :
    (server.handleResult now (some token) hasRequestId).1.peer? =
      server.tokens.verifyPeerToken now token := by
  rw [RelayServer.handleResult, Option.bind_some]
  cases server.tokens.verifyPeerToken now token with
  | none => rfl
  | some owner => cases hasRequestId <;> rfl

omit [DecidableEq T] [DecidableEq P] in
theorem peer?_chat (server : RelayServer T P) (now : ℤ) (token : T) :
    (server.handleChat now (some token)).1.peer? = server.tokens.verifyPeerToken now token := by
  rw [RelayServer.handleChat]
  cases server.tokens.verifyPeerToken now token <;> rfl

omit [DecidableEq T] in
theorem peer?_disconnect (server : RelayServer T P) (now : ℤ) (token : T) :
    (server.handleDisconnect now token).1.peer? = server.tokens.verifyPeerToken now token := by
  rw [RelayServer.handleDisconnect]
  cases server.tokens.verifyPeerToken now token <;> rfl

/-- A request that only bears a token is answered as the token manager verifies it. -/
theorem peer?_bears (config : Config) (server : RelayServer T P) (now : ℤ) {request : Request T P}
    (hbears : request.bears = some token) :
    (server.handle config now request).1.peer? = server.tokens.verifyPeerToken now token := by
  cases request with
  | poll other =>
    obtain rfl : other = some token := hbears
    exact peer?_poll server now token
  | result other hasRequestId =>
    obtain rfl : other = some token := hbears
    exact peer?_result server now token hasRequestId
  | chat endpoint other =>
    obtain rfl : other = some token := hbears
    exact peer?_chat server now token
  | disconnect other =>
    obtain rfl : other = token := Option.some.inj hbears
    exact peer?_disconnect server now other
  | issueBootstrap _ _ | register _ _ _ _ | heartbeat _ | tokenRefresh _ | handleInbound
  | pruneStale | pruneExpired => cases hbears

variable {before : List (ℤ × Request T P)}

/-- A heartbeat or a token refresh is answered as the lease and the registry say. -/
theorem Agrees.answer_renews (hagrees : Agrees config before (run config before))
    (hclock : ∀ time ∈ before.map Prod.fst, time ≤ now) (request : Request T P) (token : T)
    (hrenews : request.renews = some token) (peerId : P) :
    (answer config before now request).peer? = some peerId ↔
      ∃ ends, leasesOf config (run config before).exchanges token = some (peerId, ends) ∧
        now ≤ ends + config.grace ∧
          (run config before).server.registry.isOnline peerId = true := by
  have hanswer : (answer config before now request).peer? = some peerId ↔
      ((run config before).server.tokens.refreshPeerToken now token config.ttl
        config.grace).1 = some peerId ∧
      (run config before).server.registry.isOnline peerId = true := by
    cases request with
    | heartbeat other =>
      obtain rfl : other = token := Option.some.inj hrenews
      exact peer?_renew config _ now other peerId
    | tokenRefresh other =>
      obtain rfl : other = some token := hrenews
      exact peer?_renew config _ now token peerId
    | _ => cases hrenews
  rw [hanswer, hagrees.tokens.refresh hclock token peerId]
  constructor
  · rintro ⟨⟨ends, hlease, hintime⟩, honline⟩
    exact ⟨ends, hlease, hintime, honline⟩
  · rintro ⟨ends, hlease, hintime, honline⟩
    exact ⟨⟨ends, hlease, hintime⟩, honline⟩

/-- Any other request that bears a token is answered as the token's lease says. -/
theorem Agrees.answer_bears (hagrees : Agrees config before (run config before))
    (hclock : ∀ time ∈ before.map Prod.fst, time ≤ now) (request : Request T P) (token : T)
    (hbears : request.bears = some token) (peerId : P) :
    (answer config before now request).peer? = some peerId ↔
      ∃ ends, leasesOf config (run config before).exchanges token = some (peerId, ends) ∧
        now ≤ ends := by
  rw [answer, peer?_bears config _ now hbears]
  exact hagrees.tokens.verify hclock token peerId

theorem Agrees.answered (hagrees : Agrees config before (run config before))
    (hclock : ∀ time ∈ before.map Prod.fst, time ≤ now) (request : Request T P) :
    Answered config before now request where
  onlyRenews := fun token hrenews peerId hpeer =>
    (hagrees.answer_renews hclock request token hrenews peerId).mp hpeer
  onlyBears := fun token hbears peerId hpeer =>
    (hagrees.answer_bears hclock request token hbears peerId).mp hpeer
  renews := fun token hrenews peerId ends hlease _ hintime honline =>
    (hagrees.answer_renews hclock request token hrenews peerId).mpr
      ⟨ends, hlease, hintime, honline⟩
  bears := fun token hbears peerId ends hlease _ hintime =>
    (hagrees.answer_bears hclock request token hbears peerId).mpr ⟨ends, hlease, hintime⟩

/-- In every run a request is accepted only within its token's lease, and always as the peer
that the token was issued to; as long as that peer has not disconnected it is accepted exactly
then.  A peer that has disconnected is offline, and its heartbeats and token refreshes are
refused, at least until a poll that bears one of its tokens is accepted. -/
theorem run_answered (config : Config) (actions : List (ℤ × Request T P))
    (hclock : (actions.map Prod.fst).Pairwise (· ≤ ·)) (hdrawn : (drawnOf actions).Nodup) :
    ∀ before after, actions = before ++ after →
      (∀ peerId, leftOf (run config before).exchanges peerId = true →
        (run config before).server.registry.isOnline peerId = false) ∧
      ∀ now request rest, after = (now, request) :: rest →
        Answered config before now request := by
  rintro before after rfl
  rw [map_append, pairwise_append] at hclock
  rw [drawnOf, filterMap_append, nodup_append] at hdrawn
  have hagrees := run_agrees config before hclock.1 hdrawn.1
  refine ⟨hagrees.offline, ?_⟩
  rintro now request rest rfl
  exact hagrees.answered
    (fun time htime => hclock.2.2 time htime now (by simp)) request

/-! ## A heartbeat in the grace -/

/-- Tokens are accepted exactly until they expire, and not after their peer has disconnected,
which is not online again. -/
def StaysOut (config : Config) (actions : List (ℤ × Request T P)) : Prop :=
  ∀ before now request after, actions = before ++ (now, request) :: after →
    ∀ token, (request.renews = some token ∨ request.bears = some token) →
      ∀ peerId ends, leasesOf config (run config before).exchanges token = some (peerId, ends) →
        (goneOf (run config before).exchanges peerId →
          (answer config before now request).peer? = none ∧
            (run config before).server.registry.isOnline peerId = false) ∧
        (¬goneOf (run config before).exchanges peerId →
          ((answer config before now request).peer? = some peerId ↔ now ≤ ends))

def shortLease : Config where
  heartbeatTimeoutSec := 5
  peerTokenTtlSec := 1

/-- The token expires one second before the heartbeat. -/
def lateHeartbeat : List (ℤ × Request ℕ ℕ) :=
  [(1000, .issueBootstrap 0 60), (1000, .register 0 2 7 3), (1002, .heartbeat 3)]

theorem lateHeartbeat_accepted :
    (lateHeartbeat.map Prod.fst).Pairwise (· ≤ ·) ∧ (drawnOf lateHeartbeat).Nodup ∧
      ¬StaysOut shortLease lateHeartbeat := by
  refine ⟨by decide, by decide, fun hstays => ?_⟩
  obtain ⟨_, hexact⟩ := hstays
    [(1000, .issueBootstrap 0 60), (1000, .register 0 2 7 3)] 1002 (.heartbeat 3) [] rfl 3
    (.inl rfl) 7 1001 (by decide +kernel)
  have hexpired : ¬(1002 : ℤ) ≤ 1001 := by decide
  refine hexpired ((hexact ?_).mp (by decide +kernel))
  rintro ⟨exchange, hmem, token, hrequest, _⟩
  have hregistered : exchange.request = .issueBootstrap 0 60 ∨
      exchange.request = .register 0 2 7 3 := by
    rcases mem_cons.mp hmem with rfl | hrest
    · exact .inl rfl
    · exact .inr (by rw [mem_singleton.mp hrest])
  rcases hregistered with hother | hother <;> rw [hrequest] at hother <;> cases hother

theorem run_answered_late :
    (lateHeartbeat.map Prod.fst).Pairwise (· ≤ ·) ∧ (drawnOf lateHeartbeat).Nodup ∧
      ∀ before after, lateHeartbeat = before ++ after →
        (∀ peerId, leftOf (run shortLease before).exchanges peerId = true →
          (run shortLease before).server.registry.isOnline peerId = false) ∧
        ∀ now request rest, after = (now, request) :: rest →
          Answered shortLease before now request :=
  ⟨by decide, by decide, run_answered shortLease lateHeartbeat (by decide) (by decide)⟩

end ReuleauxCoder.Remote.Relay
