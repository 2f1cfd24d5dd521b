import Prism.Model.GitHub

/-! Which answers make the client report a loss of access. -/

namespace Prism

namespace GitHub

/-- An answer refuses access when it says so and is no rate limit. -/
def denied (r : Response) : Bool :=
  (r.status = 401 || r.status = 403 || r.status = 404) && !rateLimited r

private theorem received_error {r : Response} {f : GitHubFailure} (h : received r = .error f) :
    f.code ≠ .githubAccessUnavailable := by
  unfold received at h
  split at h
  · simp [← Except.error.inj h, unavailable]
  split at h
  · simp [← Except.error.inj h, invalidResponse]
  split at h
  · simp [← Except.error.inj h, unavailable]
  split at h
  · simp [← Except.error.inj h]
  split at h
  · simp [← Except.error.inj h, unavailable]
  · contradiction

/-- The client reports a loss of access for these answers only. -/
theorem accept_access {time : ℤ} {etag : Option String} {cache : Bool} {r : Response} :
    (∃ f, accept time etag cache r = .error f ∧ f.code = .githubAccessUnavailable) ↔
      denied r = true := by
  unfold accept denied
  by_cases hsame : r.status = 304 ∧ cache = true
  · rw [if_pos hsame]
    split <;> simp [hsame.1, invalidResponse]
  rw [if_neg hsame]
  by_cases hlimit : rateLimited r = true
  · simp [hlimit]
  rw [if_neg hlimit]
  by_cases hrefused : r.status = 401 ∨ r.status = 403 ∨ r.status = 404
  · rw [if_pos hrefused]
    simp [hlimit, hrefused, or_assoc]
  · rw [if_neg hrefused]
    have hno : ¬∃ f, received r = .error f ∧ f.code = .githubAccessUnavailable :=
      fun ⟨f, hf, hcode⟩ => received_error hf hcode
    simp [hno, or_assoc, hrefused]

end GitHub

namespace GitHubClient

open GitHub

/-- The reply refuses access. -/
def deniedReply : Reply → Bool
  | .response r => denied r
  | _ => false

/-- A computation ends with a loss of access. -/
def LostAccess {α : Type} (x : Http α) : Prop :=
  ∃ f, x.result = .error (.failure f) ∧ f.code = .githubAccessUnavailable

theorem lostAccess_congr {α β : Type} {x : Http α} {y : Http β} {e : FetchError}
    (hx : x.result = .error e) (hy : y.result = .error e) : LostAccess x ↔ LostAccess y := by
  simp only [LostAccess, hx, hy, Except.error.injEq]

/-- One slash and then something else. -/
private def Rooted (s : String) : Prop :=
  ∃ c rest, s.toList = '/' :: c :: rest ∧ c ≠ '/'

private theorem rooted_append {s : String} (h : Rooted s) (t : String) : Rooted (s ++ t) := by
  obtain ⟨c, rest, hs, hc⟩ := h
  exact ⟨c, rest ++ t.toList, by rw [String.toList_append, hs]; rfl, hc⟩

private theorem rooted_path (asked : Request) : Rooted asked.path := by
  have happ : Rooted "/app/installations/" := ⟨'a', "pp/installations/".toList, rfl, by decide⟩
  have hrepos : Rooted "/repos/" := ⟨'r', "epos/".toList, rfl, by decide⟩
  -- `change` and not `rw`: the equation lemmas of `path` evaluate its literals.
  cases asked with
  | accessTokens installation repository =>
      change Rooted ("/app/installations/" ++ toString installation ++ "/access_tokens")
      exact rooted_append (rooted_append happ _) _
  | pulls owner name page =>
      change Rooted ("/repos/" ++ owner ++ "/" ++ name ++
        "/pulls?state=all&sort=updated&direction=desc&per_page=30&page=" ++ toString page)
      exact rooted_append (rooted_append (rooted_append (rooted_append (rooted_append hrepos _) _)
        _) _) _
  | pull owner name number =>
      change Rooted ("/repos/" ++ owner ++ "/" ++ name ++ "/pulls/" ++ toString number)
      exact rooted_append (rooted_append (rooted_append (rooted_append (rooted_append hrepos _) _)
        _) _) _

theorem request_eq (g : GitHubClient) (asked : Request) (etag : Option String) (cache : Bool) :
    g.request asked etag cache = ⟨[(asked, g.network asked)],
      match g.network asked with
      | .timeout => .error .timeout
      | .httpError => .error (.failure unavailable)
      | .response r => (accept g.time etag cache r).mapError .failure⟩ := by
  obtain ⟨c, rest, hpath, hc⟩ := rooted_path asked
  refine if_neg ?_
  rw [hpath]
  simp [List.cons_prefix_cons, Ne.symm hc]

theorem request_lost {g : GitHubClient} {asked : Request} {etag : Option String} {cache : Bool} :
    LostAccess (g.request asked etag cache) ↔ deniedReply (g.network asked) = true := by
  rw [LostAccess, request_eq]
  cases g.network asked with
  | timeout => simp [deniedReply]
  | httpError => simp [deniedReply, unavailable]
  | response r =>
      simp only [deniedReply, ← @accept_access g.time etag cache r]
      cases accept g.time etag cache r <;> simp [Except.mapError]

/-- The status of the reply is 401, 403 or 404. -/
def refusedReply : Reply → Bool
  | .response r => r.status = 401 || r.status = 403 || r.status = 404
  | _ => false

theorem denied_refused {reply : Reply} (h : deniedReply reply = true) :
    refusedReply reply = true := by
  cases reply with
  | response r =>
      simp only [deniedReply, denied, Bool.and_eq_true] at h
      exact h.1
  | httpError => contradiction
  | timeout => contradiction

/-- A request that is answered was not refused. -/
theorem request_answered {g : GitHubClient} {asked : Request} {etag : Option String}
    {cache : Bool} {answer : Json × Option String}
    (h : (g.request asked etag cache).result = .ok answer) :
    refusedReply (g.network asked) = false := by
  by_contra hne
  rw [Bool.not_eq_false] at hne
  rw [request_eq] at h
  cases hreply : g.network asked with
  | timeout => simp [hreply, refusedReply] at hne
  | httpError => simp [hreply, refusedReply] at hne
  | response r =>
      have hrefused : r.status = 401 ∨ r.status = 403 ∨ r.status = 404 := by
        simpa [hreply, refusedReply, or_assoc] using hne
      have hsame : ¬(r.status = 304 ∧ cache = true) := by
        rintro ⟨hs, -⟩
        simp [hs] at hrefused
      simp only [hreply, accept, if_neg hsame, if_pos hrefused] at h
      split at h <;> simp [Except.mapError] at h

/-! ## The two requests -/

/-- The computation makes no request and loses no access. -/
structure Calm {α : Type} (x : Http α) : Prop where
  exchanged : x.exchanged = []
  kept : ¬LostAccess x

theorem calm_pure {α : Type} (a : α) : Calm (pure a : Http α) := by
  refine ⟨rfl, ?_⟩
  rintro ⟨f, hf, -⟩
  simp [pure] at hf

theorem calm_fail {α : Type} {f : GitHubFailure} (h : f.code ≠ .githubAccessUnavailable) :
    Calm (.fail f : Http α) := by
  refine ⟨rfl, ?_⟩
  rintro ⟨f', hf, hcode⟩
  simp only [Http.fail, Except.error.injEq, FetchError.failure.injEq] at hf
  exact h (hf ▸ hcode)

theorem tokenFrom_calm (data : Json) : Calm (tokenFrom data) := by
  unfold tokenFrom
  split
  · exact calm_pure _
  · exact calm_fail (by simp [unavailable])

theorem pageFrom_calm (g : GitHubClient) (plan : FetchPlan) (data : Json)
    (tag : Option String) : Calm (g.pageFrom plan data tag) := by
  unfold pageFrom
  split
  · exact calm_pure _
  · split
    · exact calm_fail (by simp [invalidResponse])
    · exact calm_pure _

/-- A request followed by a calm computation loses access by its refusal. -/
theorem request_then {α : Type} {g : GitHubClient} {asked : Request} {etag : Option String}
    {cache : Bool} {f : Json × Option String → Http α} (hf : ∀ answer, Calm (f answer)) :
    (g.request asked etag cache >>= f).exchanged = [(asked, g.network asked)] ∧
      (LostAccess (g.request asked etag cache >>= f) ↔ deniedReply (g.network asked) = true) ∧
      ∀ a, (g.request asked etag cache >>= f).result = .ok a →
        refusedReply (g.network asked) = false := by
  have hexchanged : (g.request asked etag cache).exchanged = [(asked, g.network asked)] := by
    rw [request_eq]
  cases hresult : (g.request asked etag cache).result with
  | error e =>
      rw [Http.bind_error f hresult, ← @request_lost g asked etag cache]
      exact ⟨hexchanged, lostAccess_congr rfl hresult, fun a h => by contradiction⟩
  | ok answer =>
      have hanswered := request_answered hresult
      have hgranted : ¬deniedReply (g.network asked) = true := by
        intro hdenied
        simp [denied_refused hdenied] at hanswered
      rw [Http.bind_ok f hresult]
      refine ⟨?_, iff_of_false (hf answer).kept hgranted, fun _ _ => hanswered⟩
      rw [(hf answer).exchanged, List.append_nil, hexchanged]

theorem appJwt_cases (g : GitHubClient) :
    g.appJwt = pure () ∨ ∃ f, g.appJwt = .fail f ∧ f.code ≠ .githubAccessUnavailable := by
  unfold appJwt
  split
  · exact .inr ⟨_, rfl, by simp⟩
  split
  · exact .inr ⟨_, rfl, by simp⟩
  · exact .inl rfl

/-- The token needs one request, whose refusal alone is a loss of access. -/
theorem installationToken_cases (g : GitHubClient) (installation repository : ℕ) :
    (Calm (g.installationToken installation repository) ∧
        ∀ token, (g.installationToken installation repository).result ≠ .ok token) ∨
      (g.installationToken installation repository).exchanged =
          [(.accessTokens installation repository,
            g.network (.accessTokens installation repository))] ∧
        (LostAccess (g.installationToken installation repository) ↔
          deniedReply (g.network (.accessTokens installation repository)) = true) ∧
        ∀ token, (g.installationToken installation repository).result = .ok token →
          refusedReply (g.network (.accessTokens installation repository)) = false := by
  rcases appJwt_cases g with hjwt | ⟨f, hjwt, hcode⟩
  · right
    have htoken : g.installationToken installation repository =
        g.request (.accessTokens installation repository) none false >>=
          fun answer => tokenFrom answer.1 := by
      rw [installationToken, hjwt, Http.pure_then]
    rw [htoken]
    exact request_then fun answer => tokenFrom_calm answer.1
  · left
    have hfail : g.installationToken installation repository = .fail f := by
      rw [installationToken, hjwt, Http.fail_then]
    rw [hfail]
    exact ⟨calm_fail hcode, fun token h => by contradiction⟩

/-- What a fetch exchanges, and when it ends with a loss of access: a refusal of
the token, or of the pull requests once there is a token. -/
theorem fetch_cases (g : GitHubClient) (plan : FetchPlan) :
    (∀ token, (g.installationToken plan.repo.installationId
          plan.repo.githubRepositoryId).result ≠ .ok token) ∧
        (Calm (g.fetch plan) ∨
          (g.fetch plan).exchanged =
            [(.accessTokens plan.repo.installationId plan.repo.githubRepositoryId,
              g.network (.accessTokens plan.repo.installationId plan.repo.githubRepositoryId))] ∧
          (LostAccess (g.fetch plan) ↔ deniedReply (g.network
            (.accessTokens plan.repo.installationId plan.repo.githubRepositoryId)) = true)) ∨
      (∃ token, (g.installationToken plan.repo.installationId
          plan.repo.githubRepositoryId).result = .ok token) ∧
        (g.fetch plan).exchanged =
          [(.accessTokens plan.repo.installationId plan.repo.githubRepositoryId,
            g.network (.accessTokens plan.repo.installationId plan.repo.githubRepositoryId)),
           (asked plan, g.network (asked plan))] ∧
        refusedReply (g.network
          (.accessTokens plan.repo.installationId plan.repo.githubRepositoryId)) = false ∧
        (LostAccess (g.fetch plan) ↔ deniedReply (g.network (asked plan)) = true) := by
  have htoken := installationToken_cases g plan.repo.installationId plan.repo.githubRepositoryId
  cases hresult : (g.installationToken plan.repo.installationId
      plan.repo.githubRepositoryId).result with
  | error e =>
      have hfetch : g.fetch plan = ⟨_, .error e⟩ := Http.bind_error _ hresult
      rw [hfetch]
      refine .inl ⟨fun token h => by contradiction, ?_⟩
      rcases htoken with ⟨hcalm, -⟩ | ⟨hexchanged, hlost, -⟩
      · exact .inl ⟨hcalm.exchanged,
          fun hlost => hcalm.kept ((lostAccess_congr rfl hresult).mp hlost)⟩
      · refine .inr ⟨hexchanged, ?_⟩
        rw [← hlost]
        exact lostAccess_congr rfl hresult
  | ok token =>
      right
      rcases htoken with ⟨-, hno⟩ | ⟨hexchanged, -, hgranted⟩
      · exact absurd hresult (hno token)
      have hpage : ∀ answer : Json × Option String, Calm (g.pageFrom plan answer.1 answer.2) :=
        fun answer => pageFrom_calm g plan answer.1 answer.2
      obtain ⟨hasked, hlost, -⟩ := @request_then _ g (asked plan) plan.etag true _ hpage
      have hfetch : g.fetch plan = ⟨(g.installationToken plan.repo.installationId
            plan.repo.githubRepositoryId).exchanged ++ (g.request (asked plan) plan.etag true >>=
            fun answer => g.pageFrom plan answer.1 answer.2).exchanged,
          (g.request (asked plan) plan.etag true >>=
            fun answer => g.pageFrom plan answer.1 answer.2).result⟩ :=
        Http.bind_ok _ hresult
      rw [hfetch, hasked, hexchanged]
      exact ⟨⟨token, rfl⟩, rfl, hgranted token hresult, hlost⟩

end GitHubClient

end Prism
