import ReuleauxCoder.Approval.Policy

/-!
# Session grants and the policy

The judge and the coverage test look at session rules only.  A rule outside them
decides in the merged configuration when it is the most specific match and no
session rule is more specific, so a grant agrees with the policy exactly when
such a rule allows the request too.
-/

namespace ReuleauxCoder.Approval

open PyText Ranking List

/-! ## What the engine allows -/

/-- The subjects the engine resolves one by one. -/
def scopes (context : ToolApprovalContext) : List (Option Text) :=
  if context.subjects = [] then [none] else context.subjects.map some

theorem actionPriority_eq_zero {action : ApprovalAction} :
    actionPriority action = 0 ↔ action = .allow := by
  cases action <;> simp [actionPriority]

/-- The strictest result allows exactly when every result does. -/
theorem evaluate_allow_iff (config : ApprovalConfig) (context : ToolApprovalContext) :
    (evaluate config context).action = .allow ↔
      ∀ scope ∈ scopes context, (resolve config context scope).action = .allow := by
  rw [evaluate, scopes]
  cases hmax : (context.subjects.map fun subject =>
      resolve config context (some subject)).argmax fun resolved =>
        actionPriority resolved.action with
  | none =>
      rw [argmax_eq_none, map_eq_nil_iff] at hmax
      rw [if_pos hmax, forall_mem_singleton]
  | some strictest =>
      have hmem := argmax_mem hmax
      have hne : context.subjects ≠ [] := by
        intro hnil
        rw [hnil] at hmem
        cases hmem
      rw [if_neg hne, forall_mem_map]
      constructor
      · intro hallow subject hsubject
        have hle := le_of_mem_argmax (mem_map_of_mem hsubject) hmax
        rw [hallow] at hle
        exact actionPriority_eq_zero.mp (Nat.le_zero.mp hle)
      · intro hall
        obtain ⟨subject, hsubject, rfl⟩ := mem_map.mp hmem
        exact hall subject hsubject

theorem resolve_eq_matchOf (config : ApprovalConfig) (context : ToolApprovalContext)
    (scope : Option Text) :
    resolve config context scope =
      matchOf config context (winner specificity (governs context scope) config.rules) := by
  rw [resolve, find?_ranked]

/-! ## Targets -/

theorem sameRuleTarget_iff {left right : ApprovalRule} :
    sameRuleTarget left right = true ↔
      { left with action := .allow } = { right with action := .allow } := by
  obtain ⟨_, _, _, _, _, _, _, _⟩ := left
  obtain ⟨_, _, _, _, _, _, _, _⟩ := right
  simp [sameRuleTarget, and_assoc]

theorem governs_congr {left right : ApprovalRule} (hsame : sameRuleTarget left right = true)
    (context : ToolApprovalContext) (scope : Option Text) :
    governs context scope left = governs context scope right := by
  have hgoverns : ∀ rule : ApprovalRule,
      governs context scope rule = governs context scope { rule with action := .allow } :=
    fun _ => rfl
  rw [hgoverns left, hgoverns right, sameRuleTarget_iff.mp hsame]

/-- No two rules share a target. -/
def TargetsDistinct (rules : List ApprovalRule) : Prop :=
  rules.Pairwise fun left right => sameRuleTarget left right = false

/-- The rules whose target none of the session rules shares. -/
def surviving (rules sessionRules : List ApprovalRule) : List ApprovalRule :=
  rules.filter fun rule => sessionRules.all fun session => !sameRuleTarget rule session

theorem foldl_layer_append (front back sessionRules : List ApprovalRule) :
    sessionRules.foldl layer (front ++ back) =
      surviving front sessionRules ++ sessionRules.foldl layer back := by
  induction sessionRules generalizing front back with
  | nil => simp [surviving]
  | cons session rest ih =>
      have hlayer : layer (front ++ back) session =
          surviving front [session] ++ layer back session := by
        simp [layer, surviving, filter_append]
      rw [foldl_cons, foldl_cons, hlayer, ih]
      congr 1
      simp [surviving, filter_filter, Bool.and_comm]

theorem foldl_layer (rules sessionRules : List ApprovalRule) :
    sessionRules.foldl layer rules =
      surviving rules sessionRules ++ sessionRules.foldl layer [] := by
  have happend := foldl_layer_append rules [] sessionRules
  rwa [append_nil] at happend

variable {sessionRules rules : List ApprovalRule}

theorem foldl_layer_distinct {front : List ApprovalRule}
    (hdistinct : TargetsDistinct (front ++ sessionRules)) :
    sessionRules.foldl layer front = front ++ sessionRules := by
  induction sessionRules generalizing front with
  | nil => simp
  | cons session rest ih =>
      have hlayer : layer front session = front ++ [session] := by
        rw [layer, filter_eq_self.mpr]
        intro rule hrule
        have hpair := (pairwise_append.mp hdistinct).2.2 rule hrule session mem_cons_self
        rw [hpair]
        rfl
      rw [foldl_cons, hlayer, ih]
      · simp
      · simpa using hdistinct

theorem targetsDistinct_layer (hdistinct : TargetsDistinct rules) (rule : ApprovalRule) :
    TargetsDistinct (layer rules rule) := by
  rw [TargetsDistinct, layer, pairwise_append]
  refine ⟨hdistinct.filter _, pairwise_singleton _ _, ?_⟩
  intro existing hexisting other hother
  rw [mem_singleton.mp hother]
  simpa using (mem_filter.mp hexisting).2

theorem targetsDistinct_foldl_layer (hdistinct : TargetsDistinct rules)
    (added : List ApprovalRule) : TargetsDistinct (added.foldl layer rules) := by
  induction added generalizing rules with
  | nil => exact hdistinct
  | cons rule rest ih => exact ih (targetsDistinct_layer hdistinct rule)

theorem mem_foldl_layer {added : List ApprovalRule} {rule : ApprovalRule}
    (hrule : rule ∈ added.foldl layer rules) : rule ∈ rules ∨ rule ∈ added := by
  induction added generalizing rules with
  | nil => exact Or.inl hrule
  | cons first rest ih =>
      rcases ih hrule with hlayered | hrest
      · rcases mem_append.mp hlayered with hkept | hnew
        · exact Or.inl (mem_filter.mp hkept).1
        · exact Or.inr (mem_singleton.mp hnew ▸ mem_cons_self)
      · exact Or.inr (mem_cons_of_mem _ hrest)

/-- Every target that was there or was added is still there. -/
theorem exists_target_foldl_layer {added : List ApprovalRule} {rule : ApprovalRule}
    (hrule : rule ∈ rules ∨ rule ∈ added) :
    ∃ kept ∈ added.foldl layer rules, sameRuleTarget rule kept = true := by
  induction added generalizing rules rule with
  | nil => exact ⟨rule, hrule.resolve_right not_mem_nil, sameRuleTarget_iff.mpr rfl⟩
  | cons first rest ih =>
      by_cases hfirst : sameRuleTarget rule first = true
      · have hthere : first ∈ layer rules first :=
          mem_append_right _ (mem_singleton.mpr rfl)
        obtain ⟨kept, hkept, hsame⟩ := ih (Or.inl hthere)
        refine ⟨kept, hkept, ?_⟩
        rw [sameRuleTarget_iff] at hfirst hsame ⊢
        exact hfirst.trans hsame
      · apply ih
        rcases hrule with hold | hadded
        · exact Or.inl (mem_append_left _ (mem_filter.mpr ⟨hold, by simp [hfirst]⟩))
        · rcases mem_cons.mp hadded with rfl | hlater
          · exact absurd (sameRuleTarget_iff.mpr rfl) hfirst
          · exact Or.inr hlater

/-- Where the best of the other rules is at least as specific as every matching
rule of a list, it allows. -/
def Yields (others rules : List ApprovalRule) (context : ToolApprovalContext) : Prop :=
  ∀ scope ∈ scopes context, ∀ rule,
    winner specificity (governs context scope) others = some rule →
    (∀ best, winner specificity (governs context scope) rules = some best →
      specificity best ≤ specificity rule) →
    rule.action = .allow

/-- When the rules of a list allow a request on their own, the whole configuration
allows it exactly when the other rules yield. -/
theorem evaluate_append_allow_iff {mode : ApprovalAction} {others : List ApprovalRule}
    {context : ToolApprovalContext} (hrules : ∀ scope ∈ scopes context, ∀ best,
      winner specificity (governs context scope) rules = some best → best.action = .allow)
    (hfallback : ∀ scope ∈ scopes context,
      winner specificity (governs context scope) rules = none →
        fallbackAction ⟨mode, others ++ rules⟩ context = .allow) :
    (evaluate ⟨mode, others ++ rules⟩ context).action = .allow ↔ Yields others rules context := by
  rw [evaluate_allow_iff]
  apply forall₂_congr
  intro scope hscope
  rw [resolve_eq_matchOf, winner_append]
  cases hothers : winner specificity (governs context scope) others with
  | none =>
      cases hbest : winner specificity (governs context scope) rules with
      | none => simp [better, matchOf, hfallback scope hscope hbest]
      | some best => simp [better, matchOf, hrules scope hscope best hbest]
  | some other =>
      cases hbest : winner specificity (governs context scope) rules with
      | none => simp [better, matchOf]
      | some best =>
          by_cases hlt : specificity other < specificity best
          · simp [better, matchOf, hlt, hrules scope hscope best hbest]
          · simp [better, matchOf, hlt, Nat.le_of_not_lt hlt]

/-! ## The judge -/

variable {request : ApprovalRequest}

theorem judge_allow {reason : Text}
    (hjudge : judgeSessionApprovalRules sessionRules request = some (.allowOnce reason)) :
    (evaluate ⟨.requireApproval, sessionRules⟩ (contextOf request)).action = .allow := by
  rw [judgeSessionApprovalRules] at hjudge
  split at hjudge
  · cases hjudge
  · split at hjudge
    · cases hjudge
    · simp only at hjudge
      split at hjudge
      · cases hjudge
      · assumption
      · cases hjudge
      · cases hjudge

/-- A default that asks for approval allows only what every default allows. -/
theorem fallbackAction_allow {others : List ApprovalRule} {context : ToolApprovalContext}
    (mode : ApprovalAction) (hallow : fallbackAction ⟨.requireApproval, rules⟩ context = .allow) :
    fallbackAction ⟨mode, others⟩ context = .allow := by
  rw [fallbackAction] at hallow ⊢
  split at hallow
  · rename_i hinternal
    rw [if_pos hinternal]
  · cases hallow

theorem judge_winner_allow {reason : Text}
    (hjudge : judgeSessionApprovalRules sessionRules request = some (.allowOnce reason))
    {scope : Option Text} (hscope : scope ∈ scopes (contextOf request)) :
    (matchOf ⟨.requireApproval, sessionRules⟩ (contextOf request)
      (winner specificity (governs (contextOf request) scope) sessionRules)).action = .allow := by
  have hall := (evaluate_allow_iff _ _).mp (judge_allow hjudge) scope hscope
  rwa [resolve_eq_matchOf] at hall

/-! ## Coverage -/

theorem governs_of_dimensionsMatch (hsource : request.toolSource ∈ toolSources)
    {rule : ApprovalRule} (hdimensions : dimensionsMatch rule request = true) :
    matchesDimensions rule (contextOf request) = true := by
  rw [matchesDimensions, contextOf]
  simp only [if_pos hsource]
  exact hdimensions

/-- A covering grant has an allow rule for every subject of the request. -/
theorem exists_governs_of_covers {grant : ApprovalGrant}
    (hcovers : approvalGrantCoversRequest grant request = true)
    (hsource : request.toolSource ∈ toolSources) {scope : Option Text}
    (hscope : scope ∈ scopes (contextOf request)) :
    ∃ rule ∈ grant.proposedRules, governs (contextOf request) scope rule = true := by
  have hallowing : ∀ test : ApprovalRule → Bool,
      ((grant.proposedRules.filter fun rule => rule.action = .allow).filter
        fun rule => dimensionsMatch rule request).any test = true →
      ∃ rule ∈ grant.proposedRules,
        matchesDimensions rule (contextOf request) = true ∧ test rule = true := by
    intro test hany
    obtain ⟨rule, hrule, htest⟩ := List.any_eq_true.mp hany
    obtain ⟨hfiltered, hdimensions⟩ := mem_filter.mp hrule
    exact ⟨rule, (mem_filter.mp hfiltered).1,
      governs_of_dimensionsMatch hsource hdimensions, htest⟩
  rw [approvalGrantCoversRequest] at hcovers
  split at hcovers
  · cases hcovers
  · split at hcovers
    · cases hcovers
    · split at hcovers
      · rename_i hsubjects
        have hnone : scope = none := by
          rw [scopes, if_pos (show (contextOf request).subjects = [] from hsubjects)] at hscope
          exact mem_singleton.mp hscope
        obtain ⟨rule, hrule, hdimensions, hpattern⟩ := hallowing _ hcovers
        refine ⟨rule, hrule, ?_⟩
        rw [hnone]
        simpa [governs, hdimensions] using hpattern
      · rename_i hsubjects
        rw [scopes, if_neg (show (contextOf request).subjects ≠ [] from hsubjects)] at hscope
        obtain ⟨subject, hsubject, rfl⟩ := mem_map.mp hscope
        obtain ⟨rule, hrule, hdimensions, hpattern⟩ :=
          hallowing _ (all_eq_true.mp hcovers subject hsubject)
        refine ⟨rule, hrule, ?_⟩
        simpa [governs, hdimensions] using hpattern

theorem applySessionApprovalGrant_eq_some {grant : ApprovalGrant}
    (happly : applySessionApprovalGrant sessionRules request grant = some rules) :
    rules = grant.proposedRules.foldl layer sessionRules ∧
      ∀ rule ∈ grant.proposedRules, rule.action = .allow := by
  rw [applySessionApprovalGrant] at happly
  split at happly
  · cases happly
  · split at happly
    · cases happly
    · split at happly
      · cases happly
      · rename_i hallow
        split at happly
        · cases happly
        · refine ⟨(Option.some.inj happly).symm, ?_⟩
          simpa using hallow

/-! ## Grants and the merged configuration -/

/-- A session rule that the judge allows a request for, and a grant that covers a
queued request, agree with the merged configuration exactly when the rules that
neither looks at yield to the ones they look at. -/
theorem session_grants_within_policy (baseline : ApprovalConfig)
    {sessionRules : List ApprovalRule} (hdistinct : TargetsDistinct sessionRules)
    (request : ApprovalRequest) :
    (∀ reason, judgeSessionApprovalRules sessionRules request = some (.allowOnce reason) →
      ((evaluate (mergeApprovalConfig baseline sessionRules) (contextOf request)).action =
          .allow ↔
        Yields (surviving baseline.rules sessionRules) sessionRules (contextOf request))) ∧
    ∀ granted grant rules, applySessionApprovalGrant sessionRules granted grant = some rules →
      approvalGrantCoversRequest grant request = true → request.toolSource ∈ toolSources →
      ((evaluate (mergeApprovalConfig baseline rules) (contextOf request)).action = .allow ↔
        Yields (surviving baseline.rules rules ++ surviving sessionRules grant.proposedRules)
          (grant.proposedRules.foldl layer []) (contextOf request)) := by
  have hmerge : ∀ rules, TargetsDistinct rules →
      mergeApprovalConfig baseline rules =
        ⟨baseline.defaultMode, surviving baseline.rules rules ++ rules⟩ := by
    intro rules hrules
    have hlayered : rules.foldl layer [] = [] ++ rules := foldl_layer_distinct hrules
    rw [mergeApprovalConfig, foldl_layer, hlayered, nil_append]
  constructor
  · intro reason hjudge
    rw [hmerge sessionRules hdistinct]
    apply evaluate_append_allow_iff
    · intro scope hscope best hbest
      have hallow := judge_winner_allow hjudge hscope
      rwa [hbest] at hallow
    · intro scope hscope hnone
      have hallow := judge_winner_allow hjudge hscope
      rw [hnone] at hallow
      exact fallbackAction_allow baseline.defaultMode hallow
  · intro granted grant rules happly hcovers hsource
    obtain ⟨rfl, hallow⟩ := applySessionApprovalGrant_eq_some happly
    rw [hmerge _ (targetsDistinct_foldl_layer hdistinct grant.proposedRules)]
    conv_lhs => rw [foldl_layer sessionRules grant.proposedRules, ← append_assoc]
    rw [foldl_layer sessionRules grant.proposedRules]
    apply evaluate_append_allow_iff
    · intro scope hscope best hbest
      rcases mem_foldl_layer (winner_mem specificity hbest).1 with hnil | hrule
      · cases hnil
      · exact hallow best hrule
    · intro scope hscope hnone
      obtain ⟨rule, hrule, hgoverns⟩ := exists_governs_of_covers hcovers hsource hscope
      obtain ⟨kept, hkept, hsame⟩ : ∃ kept ∈ grant.proposedRules.foldl layer [],
          sameRuleTarget rule kept = true := exists_target_foldl_layer (Or.inr hrule)
      rw [governs_congr hsame] at hgoverns
      obtain ⟨best, hbest⟩ := winner_isSome specificity hkept hgoverns
      rw [hnone] at hbest
      cases hbest

/-! ## An exact file and its directory -/

def editRule (pattern : String) (action : ApprovalAction) : ApprovalRule where
  toolName := some (lit "edit_file")
  pattern := some (lit pattern)
  action := action

def editRequest (subject : String) : ApprovalRequest where
  requestId := lit "request"
  toolName := lit "edit_file"
  toolSource := lit "builtin"
  subjects := [lit subject]

theorem session_grant_directory_allowed :
    TargetsDistinct [editRule "src/**" .allow] ∧
      (evaluate (mergeApprovalConfig ⟨.requireApproval, [editRule "*" .deny]⟩
        [editRule "src/**" .allow]) (contextOf (editRequest "src/app.py"))).action = .allow := by
  have hdistinct : TargetsDistinct [editRule "src/**" .allow] := pairwise_singleton _ _
  have hgrants := (session_grants_within_policy ⟨.requireApproval, [editRule "*" .deny]⟩ hdistinct
    (editRequest "src/app.py")).1 (lit "matched session approval grant") (by decide +kernel)
  refine ⟨hdistinct, hgrants.mpr ?_⟩
  intro scope hscope rule hrule hoverall
  rw [mem_singleton.mp hscope] at hrule hoverall
  have hdeny : winner specificity (governs (contextOf (editRequest "src/app.py"))
      (some (lit "src/app.py"))) (surviving [editRule "*" .deny] [editRule "src/**" .allow]) =
        some (editRule "*" .deny) := by
    decide +kernel
  have hallow : winner specificity (governs (contextOf (editRequest "src/app.py"))
      (some (lit "src/app.py"))) [editRule "src/**" .allow] = some (editRule "src/**" .allow) := by
    decide +kernel
  have hsame := hdeny.symm.trans hrule
  rw [← Option.some.inj hsame] at hoverall
  exact absurd (hoverall _ hallow) (by decide +kernel)

/-- The baseline asks for approval of one file; a session grant for its directory
answers for it. -/
theorem judge_allows_beyond_policy :
    judgeSessionApprovalRules [editRule "src/**" .allow] (editRequest "src/secret.py") =
        some (.allowOnce (lit "matched session approval grant")) ∧
      (evaluate (mergeApprovalConfig ⟨.allow, [editRule "src/secret.py" .requireApproval]⟩
        [editRule "src/**" .allow]) (contextOf (editRequest "src/secret.py"))).action ≠ .allow := by
  constructor
  · decide +kernel
  · decide +kernel

end ReuleauxCoder.Approval
