import BoundSql.Proofs.MySql.Schemes

namespace BoundSql

namespace Settings

variable {s : Settings} {e : Error}

theorem validate_eq (htrim : Text.trim s.url.toList ≠ []) :
    s.validate = s.checkBounds >>= fun _ ↦ s.backend.map fun _ ↦ () := by
  rw [validate, if_neg htrim]
  rfl

theorem validate_of_bounds (htrim : Text.trim s.url.toList ≠ []) (h : s.checkBounds = .error e) :
    s.validate = .error e := by
  rw [validate_eq htrim, h]
  rfl

theorem of_validate (h : s.validate = .ok ()) :
    s.checkBounds = .ok () ∧ ∃ b, s.backend = .ok b := by
  have htrim : Text.trim s.url.toList ≠ [] := by
    intro htrim
    rw [validate, if_pos htrim] at h
    nomatch h
  rw [validate_eq htrim] at h
  cases hbounds : s.checkBounds with
  | error e => rw [hbounds] at h; nomatch h
  | ok =>
    rw [hbounds] at h
    cases hb : s.backend with
    | error e => rw [hb] at h; nomatch h
    | ok b => exact ⟨rfl, b, rfl⟩

theorem checkBounds_of_lt {min max : Nat} (hmin : s.poolMin = some min) (hmax : s.poolMax = some max)
    (hlt : max < min) : s.checkBounds =
      .error (.configuration s!"pool_min ({min}) must not exceed pool_max ({max})") := by
  rw [checkBounds, hmin, hmax]
  exact if_pos hlt

theorem le_of_checkBounds {min max : Nat} (hmin : s.poolMin = some min)
    (hmax : s.poolMax = some max) (h : s.checkBounds = .ok ()) : min ≤ max := by
  by_contra hlt
  exact nomatch h.symm.trans (checkBounds_of_lt hmin hmax (Nat.not_le.1 hlt))

/-- One bound alone is set, and it does not fit the default of the other. -/
def Lopsided (s : Settings) : Prop :=
  (s.poolMax = none ∧ ∃ min, s.poolMin = some min ∧ 100 < min) ∨
    (s.poolMin = none ∧ ∃ max, s.poolMax = some max ∧ max < 10)

theorem not_lopsided {min max : Nat} (hmin : s.poolMin = some min) (hmax : s.poolMax = some max) :
    ¬s.Lopsided := by
  rintro (⟨hnone, -⟩ | ⟨hnone, -⟩)
  · exact nomatch hmax.symm.trans hnone
  · exact nomatch hmin.symm.trans hnone

end Settings

namespace MySql.Plan

variable {s : Settings} {e : Error}

def taken (s : Settings) : Plan :=
  ⟨s.url, s.poolMin, s.poolMax, s.inactiveTtl, s.absoluteTtl, s.autocommit⟩

theorem ofSettings_error (h : s.validate = .error e) : ofSettings s = .error e := by
  rw [ofSettings, h]
  rfl

theorem ofSettings_mysql (h : s.validate = .ok ()) (hb : s.backend = .ok .mysql) :
    ofSettings s = .ok (taken s) := by
  rw [ofSettings, h, hb]
  rfl

theorem bounds?_taken (s : Settings) : (taken s).bounds? =
    if s.poolMin = none ∧ s.poolMax = none then none
    else some (s.poolMin.getD 10, s.poolMax.getD 100) := by
  unfold bounds? taken
  cases s.poolMin <;> cases s.poolMax <;> rfl

theorem boundsFit_iff (hmax : s.poolMax ≠ some 0) (h : s.checkBounds = .ok ()) :
    Url.boundsFit (s.poolMin.getD 10) (s.poolMax.getD 100) = true ↔ ¬s.Lopsided := by
  rw [Url.boundsFit, Bool.and_eq_true, decide_eq_true_eq, decide_eq_true_eq]
  cases hmin : s.poolMin with
  | none =>
    cases hmax' : s.poolMax with
    | none => simp [Settings.Lopsided, hmin, hmax']
    | some max =>
      simp only [Settings.Lopsided, hmin, hmax', Option.getD_none, Option.getD_some, reduceCtorEq,
        Option.some.injEq, exists_eq_left', false_and, true_and, exists_const, and_self, false_or]
      omega
  | some min =>
    cases hmax' : s.poolMax with
    | none => simp [Settings.Lopsided, hmin, hmax']
    | some max =>
      have hle : min ≤ max := Settings.le_of_checkBounds hmin hmax' h
      have hpos : 0 < max := Nat.pos_of_ne_zero fun h0 ↦ hmax (h0 ▸ hmax')
      exact iff_of_true ⟨hle, hpos⟩ (Settings.not_lopsided hmin hmax')

theorem build_of_none {p : Plan} (hurl : Url.check p.url = .ok ()) (h : p.bounds? = none) :
    p.build = .ok ⟨none, p.autocommit⟩ := by
  rw [build, hurl, h]
  rfl

theorem build_of_some {p : Plan} {min max : Nat} (hurl : Url.check p.url = .ok ())
    (h : p.bounds? = some (min, max)) : p.build =
      if Url.boundsFit min max then .ok ⟨some (min, max), p.autocommit⟩
      else .error (.configuration s!"invalid pool constraints: min {min}, max {max}") := by
  rw [build, hurl, h]
  rfl

theorem build_taken (hurl : Url.check s.url = .ok ()) (hmax : s.poolMax ≠ some 0)
    (h : s.checkBounds = .ok ()) :
    (¬s.Lopsided → ∃ pool, (taken s).build = .ok pool) ∧
    (s.Lopsided → (taken s).build = .error (.configuration
      s!"invalid pool constraints: min {s.poolMin.getD 10}, max {s.poolMax.getD 100}")) := by
  have hcheck : Url.check (taken s).url = .ok () := hurl
  have hfit := boundsFit_iff hmax h
  have hbounds := bounds?_taken s
  split at hbounds
  · next hnone =>
    have hdefault : Url.boundsFit (s.poolMin.getD 10) (s.poolMax.getD 100) = true := by
      rw [hnone.1, hnone.2]
      rfl
    exact ⟨fun _ ↦ ⟨_, build_of_none hcheck hbounds⟩, fun hl ↦ absurd hl (hfit.1 hdefault)⟩
  · rw [build_of_some hcheck hbounds]
    refine ⟨fun hl ↦ ⟨_, if_pos (hfit.2 hl)⟩, fun hl ↦ ?_⟩
    rw [if_neg fun ht ↦ hfit.1 ht hl]

/-- Valid settings with a URL that the driver accepts give a plan, which builds a pool if and only if they
are not lopsided; if they are, it refuses the bounds that it has filled in. Settings whose lower bound
exceeds the upper one give no plan, for the reason for which they are not valid. -/
theorem valid_settings_build (s : Settings) (hurl : Url.check s.url = .ok ())
    (hmax : s.poolMax ≠ some 0) :
    (s.validate = .ok () → ∃ p, ofSettings s = .ok p ∧
      ((∃ pool, p.build = .ok pool) ↔ ¬s.Lopsided) ∧
      (s.Lopsided → p.build = .error (.configuration
        s!"invalid pool constraints: min {s.poolMin.getD 10}, max {s.poolMax.getD 100}"))) ∧
    ∀ min max, s.poolMin = some min → s.poolMax = some max → max < min →
      ∃ e, e = .configuration s!"pool_min ({min}) must not exceed pool_max ({max})" ∧
        s.validate = .error e ∧ ofSettings s = .error e := by
  constructor
  · intro hvalid
    obtain ⟨hbounds, b, hb⟩ := Settings.of_validate hvalid
    have hmysql : s.backend = .ok .mysql := by
      cases b with
      | mysql => exact hb
      | sqlite path => exact absurd hb (Url.backend_ne_sqlite hurl path)
    obtain ⟨hfits, hlopsided⟩ := build_taken hurl hmax hbounds
    refine ⟨taken s, ofSettings_mysql hvalid hmysql, ⟨?_, hfits⟩, hlopsided⟩
    rintro ⟨pool, hpool⟩ hl
    exact nomatch hpool.symm.trans (hlopsided hl)
  · intro min max hmin hmax' hlt
    obtain ⟨after, hscheme⟩ := Url.exists_scheme_of_check hurl
    have hinvalid := Settings.validate_of_bounds (Url.trim_ne_nil_of_scheme hscheme)
      (Settings.checkBounds_of_lt hmin hmax' hlt)
    exact ⟨_, rfl, hinvalid, ofSettings_error hinvalid⟩

/-- Bounds from both sides of the defaults build a pool where both are set. -/
theorem valid_settings_build_both :
    let s : Settings :=
      { url := "mysql://root@localhost:3306/app", poolMin := some 200, poolMax := some 300 }
    Url.check s.url = .ok () ∧ s.poolMax ≠ some 0 ∧ s.validate = .ok () ∧
      ∃ p, ofSettings s = .ok p ∧ ∃ pool, p.build = .ok pool := by
  intro s
  have hurl : Url.check "mysql://root@localhost:3306/app" = .ok () :=
    Url.check_of_parse (p := ⟨"mysql".toList, true, "/app".toList⟩) rfl rfl rfl (by decide)
  have hmax : s.poolMax ≠ some 0 := by decide
  have hvalid : s.validate = .ok () := by decide +kernel
  obtain ⟨p, hp, hbuild, -⟩ := (valid_settings_build s hurl hmax).1 hvalid
  exact ⟨hurl, hmax, hvalid, p, hp, hbuild.2 (Settings.not_lopsided rfl rfl)⟩

/-- Up to five connections, and no lower bound given: the settings are valid, and no pool is built. -/
theorem five_connections_not_built :
    let s : Settings := { url := "mysql://root@localhost:3306/app", poolMax := some 5 }
    Url.check s.url = .ok () ∧ s.poolMax ≠ some 0 ∧ s.validate = .ok () ∧
      ∃ p, ofSettings s = .ok p ∧
        p.build = .error (.configuration "invalid pool constraints: min 10, max 5") := by
  intro s
  have hurl : Url.check "mysql://root@localhost:3306/app" = .ok () :=
    Url.check_of_parse (p := ⟨"mysql".toList, true, "/app".toList⟩) rfl rfl rfl (by decide)
  have hvalid : s.validate = .ok () := by decide +kernel
  have hbackend : s.backend = .ok .mysql := by decide +kernel
  have hbounds : s.checkBounds = .ok () := by decide
  have hmax : s.poolMax ≠ some 0 := by decide
  have hlopsided : s.Lopsided := .inr ⟨rfl, 5, rfl, by decide⟩
  have hmessage : s!"invalid pool constraints: min {s.poolMin.getD 10}, max {s.poolMax.getD 100}" =
      "invalid pool constraints: min 10, max 5" := by decide +kernel
  have hbuild := (build_taken (s := s) hurl hmax hbounds).2 hlopsided
  rw [hmessage] at hbuild
  exact ⟨hurl, hmax, hvalid, taken s, ofSettings_mysql hvalid hbackend, hbuild⟩

end MySql.Plan

end BoundSql
