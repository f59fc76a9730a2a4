import TagDoc.Proofs.ParameterSections

/-!
# The access that a page shows

The base information of a route names a class of callers, and its implicit
parameters are those of the classes that the route belongs to.  The two agree
on every route but those that are for internal servers and ask for a login as
well: `accessAgrees_iff`.  Such a route is of the internal class alone, and its
page says that it is for logged-in users.
-/

namespace TagDoc

/-- What base information can say of the callers of a route. -/
inductive ShownAccess where
  | unrestricted
  | internal
  | loggedIn
deriving DecidableEq, Repr

def ShownAccess.words : ShownAccess → String
  | .unrestricted => "无限制"
  | .internal => "限内部服务器访问"
  | .loggedIn => "限登陆用户访问"

theorem ShownAccess.eq_of_words {first second : ShownAccess}
    {left right : String}
    (same : first.words ++ ("\n" ++ left) = second.words ++ ("\n" ++ right)) :
    first = second := by
  have characters := congrArg String.toList same
  cases first <;> cases second <;> simp [words] at characters ⊢

namespace RoutePage

/-- The second line of base information says who may call the route. -/
def Shows (route : Route) (shown : ShownAccess) : Prop :=
  ∃ rest, (baseInfo route).body =
    ("* 接口：【" ++ route.method ++ "】" ++ route.path ++ "\n") ++
      ("* 访问权限：" ++ shown.words ++ "\n" ++ rest)

/-- The line and the classes that the route belongs to say the same. -/
structure AccessAgrees (route : Route) : Prop where
  unrestricted : Shows route .unrestricted ↔ route.access = [.everyone]
  internal : Shows route .internal ↔ route.access = [.internal]
  loggedIn : Shows route .loggedIn ↔ .loggedIn ∈ route.access

/-! ## The line -/

/-- The class that is shown.  A login hides the internal servers. -/
def shownAccess (route : Route) : ShownAccess :=
  match route.auth, route.rpcAuth with
  | some _, _ => .loggedIn
  | none, some _ => .internal
  | none, none => .unrestricted

theorem exists_accessText (route : Route) (rest : String) :
    ∃ more, accessText route ++ "\n" ++ rest =
      (shownAccess route).words ++ "\n" ++ more := by
  unfold accessText shownAccess
  cases route.auth with
  | some rule =>
      refine ⟨"* 需要的权限：" ++ ruleText rule ++ "\n" ++ rest, ?_⟩
      apply String.toList_injective
      simp [ShownAccess.words]
  | none =>
      cases route.rpcAuth with
      | some sources =>
          refine ⟨"* 允许的访问来源：" ++ sources.joined ++ "\n" ++ rest, ?_⟩
          apply String.toList_injective
          simp [ShownAccess.words]
      | none => exact ⟨rest, rfl⟩

theorem exists_baseInfo_eq (route : Route) :
    ∃ others, baseInfo route = (Section.titled 2 "基本信息").lines
      (("* 接口：【" ++ route.method ++ "】" ++ route.path) ::
        ("* 访问权限：" ++ accessText route) :: others) := by
  unfold baseInfo
  exact ⟨_, rfl⟩

theorem shows_shownAccess (route : Route) :
    Shows route (shownAccess route) := by
  obtain ⟨others, lines⟩ := exists_baseInfo_eq route
  obtain ⟨rest, text⟩ := exists_accessText route
    (String.join (others.map (· ++ "\n")))
  refine ⟨rest, ?_⟩
  rw [lines, Section.lines_eq]
  simp only [Section.titled, List.map_cons, String.join_cons,
    String.append_assoc, String.empty_append] at text ⊢
  rw [text]

theorem shows_iff {route : Route} {shown : ShownAccess} :
    Shows route shown ↔ shownAccess route = shown := by
  constructor
  · intro shows
    obtain ⟨rest, body⟩ := shows
    obtain ⟨own, ownBody⟩ := shows_shownAccess route
    rw [ownBody, String.append_right_inj] at body
    simp only [String.append_assoc, String.append_right_inj] at body
    exact ShownAccess.eq_of_words body
  · rintro rfl
    exact shows_shownAccess route

/-! ## The classes of a route -/

section Classes

variable {route : Route}

theorem access_eq_everyone_iff :
    route.access = [.everyone] ↔ route.auth = none ∧ route.rpcAuth = none := by
  rw [Route.access]
  cases route.auth <;> cases route.rpcAuth <;> simp

theorem access_eq_internal_iff :
    route.access = [.internal] ↔ route.rpcAuth ≠ none := by
  rw [Route.access]
  cases route.auth <;> cases route.rpcAuth <;> simp

theorem everyone_mem_access_iff :
    .everyone ∈ route.access ↔ route.rpcAuth = none := by
  rw [Route.access]
  cases route.auth <;> cases route.rpcAuth <;> simp

theorem internal_mem_access_iff :
    .internal ∈ route.access ↔ route.rpcAuth ≠ none := by
  rw [Route.access]
  cases route.auth <;> cases route.rpcAuth <;> simp

theorem loggedIn_mem_access_iff :
    .loggedIn ∈ route.access ↔ route.auth ≠ none ∧ route.rpcAuth = none := by
  rw [Route.access]
  cases route.auth <;> cases route.rpcAuth <;> simp

theorem shows_unrestricted_iff :
    Shows route .unrestricted ↔ route.auth = none ∧ route.rpcAuth = none := by
  rw [shows_iff, shownAccess]
  cases route.auth <;> cases route.rpcAuth <;> simp

theorem shows_internal_iff :
    Shows route .internal ↔ route.auth = none ∧ route.rpcAuth ≠ none := by
  rw [shows_iff, shownAccess]
  cases route.auth <;> cases route.rpcAuth <;> simp

theorem shows_loggedIn_iff : Shows route .loggedIn ↔ route.auth ≠ none := by
  rw [shows_iff, shownAccess]
  cases route.auth <;> cases route.rpcAuth <;> simp

/-- The line agrees with the classes unless a login hides the internal
servers. -/
theorem accessAgrees_iff :
    AccessAgrees route ↔ route.auth = none ∨ route.rpcAuth = none := by
  constructor
  · intro agrees
    by_cases servers : route.rpcAuth = none
    · exact .inr servers
    · have internal := agrees.internal.mpr (access_eq_internal_iff.mpr servers)
      exact .inl (shows_internal_iff.mp internal).1
  · intro one
    constructor
    · rw [shows_unrestricted_iff, access_eq_everyone_iff]
    · rw [shows_internal_iff, access_eq_internal_iff]
      exact and_iff_right_of_imp one.resolve_right
    · rw [shows_loggedIn_iff, loggedIn_mem_access_iff]
      exact (and_iff_left_of_imp one.resolve_left).symm

/-- The rows for a class of callers stand on pages that show the class. -/
def RowAgrees (route : Route) : Access → Prop
  | .everyone => ¬ Shows route .internal
  | .internal => Shows route .internal
  | .loggedIn => Shows route .loggedIn

/-- Each class of a route is shown, but for internal servers behind a login. -/
theorem rowAgrees_iff {access : Access} (own : access ∈ route.access) :
    RowAgrees route access ↔ access ≠ .internal ∨ route.auth = none := by
  cases access with
  | everyone =>
      have reachable := everyone_mem_access_iff.mp own
      simp [RowAgrees, shows_internal_iff, reachable]
  | internal =>
      have servers := internal_mem_access_iff.mp own
      simp [RowAgrees, shows_internal_iff, servers]
  | loggedIn =>
      have login := (loggedIn_mem_access_iff.mp own).1
      simp [RowAgrees, shows_loggedIn_iff, login]

end Classes

end RoutePage

/-! ## The line and the rows of a page -/

/-- A page shows one class of callers in its base information, and its implicit
rows are those of the classes of the route.  The line and the rows agree unless
the route asks for a login and is for internal servers: then the rows are those
for internal servers, and the line is that of a login. -/
theorem Page.shownAccess_ofRoute (config : Config) (pages : PageIndex)
    (unit : String) (doc : DocComment) (route : Route)
    (resolved : Assoc ResolvedType) :
    let page := (Page.ofRoute config pages unit doc route resolved).value
    let implicit := config.api.implicitParams.filter fun param =>
      param.access ∈ route.access
    page.section? "基本信息" = some (RoutePage.baseInfo route) ∧
      (∃ declared below,
        declared.map RoutePage.ParameterRow.name = Assoc.keys route.params ∧
        page.section? "参数" =
          if route.params ≠ [] then
            some ⟨2, some "参数", (RoutePage.parameterTable
              (implicit.map ImplicitParam.shown ++ declared)).markdown ++
                below⟩
          else none) ∧
      (∃ shown, ∀ other, RoutePage.Shows route other ↔ other = shown) ∧
      (RoutePage.AccessAgrees route ↔
        route.auth = none ∨ route.rpcAuth = none) ∧
      (∀ param ∈ implicit, RoutePage.RowAgrees route param.access ↔
        param.access ≠ .internal ∨ route.auth = none) ∧
      (RoutePage.Shows route .loggedIn ∧ route.access = [.internal] ↔
        route.auth ≠ none ∧ route.rpcAuth ≠ none) := by
  intro page implicit
  refine ⟨?_, ?_, ?_, RoutePage.accessAgrees_iff, ?_, ?_⟩
  · rw [RoutePart.section?_ofRoute_part config pages unit doc route resolved
      .baseInfo rfl]
    exact if_pos trivial
  · refine ⟨_, RoutePage.below
      (RoutePage.detailSections resolved route.params),
      RoutePage.names_declaredRows config unit doc resolved route.params, ?_⟩
    rw [RoutePart.section?_ofRoute_part config pages unit doc route resolved
      .parameters rfl, RoutePart.content, RoutePage.parameterSection_below,
      RoutePage.map_implicitRow]
    rfl
  · refine ⟨RoutePage.shownAccess route, fun other => ?_⟩
    rw [RoutePage.shows_iff, eq_comm]
  · intro param member
    have own := of_decide_eq_true (List.mem_filter.mp member).2
    exact RoutePage.rowAgrees_iff own
  · rw [RoutePage.shows_loggedIn_iff, RoutePage.access_eq_internal_iff]

/-- A route for internal servers that asks for a login shows the login, and
its page has the rows for internal servers. -/
theorem RoutePage.not_accessAgrees_login :
    let caller : ImplicitParam := { name := "caller", access := .internal }
    let config : Config := { api := { implicitParams := [caller] } }
    let route : Route :=
      { params := [("id", .scalar "int" {})]
        auth := some { rule := some "user" }
        rpcAuth := some (.one "billing") }
    Shows route .loggedIn ∧ ¬ Shows route .internal ∧
      route.access = [.internal] ∧ caller ∈ implicitParams config route ∧
      ¬ ∀ route, AccessAgrees route := by
  intro caller config route
  have hidden : ¬ Shows route .internal := by
    rw [shows_internal_iff]
    rintro ⟨free, _⟩
    cases free
  have login : Shows route .loggedIn :=
    shows_loggedIn_iff.mpr (Option.some_ne_none _)
  refine ⟨login, hidden, rfl, by decide, fun all => ?_⟩
  exact hidden ((all route).internal.mpr rfl)

end TagDoc
