import OpenAccounting.Domain.Fx
import OpenAccounting.System.JournalOps

/-!
# Looking up a rate

`fx::lookup` reads the rate and the direction of the applicable row by two statements.  Rows of one
day and one source tie under their `ORDER BY`, and each statement may find another one of them.
Nothing bounds the age of a row, and a manual row of the inverse pair comes before one of the feed.
So the answers are those of the module's documentation exactly when the latest rows of the pair are
recent and leave no choice (`documented_iff_clear`).
-/

namespace OpenAccounting.Fx

open Calendar Relational

def lookbackDays : ℤ := 90

/-! ## Answers -/

/-- The rows both statements select. -/
def pairRates (db : Db) (base quote : String) (date : NaiveDate) : List FxRate :=
  db.fxRates.filter fun r =>
    ((r.baseCurrency = base ∧ r.quoteCurrency = quote) ∨
      (r.baseCurrency = quote ∧ r.quoteCurrency = base)) ∧ r.rateDate ≤ date

/-- `ORDER BY rate_date DESC, CASE WHEN source = 'manual' THEN 0 ELSE 1 END`. -/
def rateKey (r : FxRate) : NaiveDate ×ₗ ℕ := toLex (r.rateDate, precedence r.source)

/-- A row that may come first. -/
structure First (rows : List FxRate) (r : FxRate) : Prop where
  mem : r ∈ rows
  before : ∀ s ∈ rows, rateKey s ≤ rateKey r

/-- What `lookup` may answer.  The rate is of the row `r` and the direction of the row `s`. -/
inductive MayAnswer (db : Db) (base quote : String) (date : NaiveDate) :
    Except FxError ℚ → Prop
  | same : base = quote → MayAnswer db base quote date (.ok 1)
  | none : base ≠ quote → pairRates db base quote date = [] →
      MayAnswer db base quote date (.error (.missingRate base quote date))
  | zero {r : FxRate} : base ≠ quote → First (pairRates db base quote date) r → r.rate = 0 →
      MayAnswer db base quote date (.error (.missingRate base quote date))
  | direct {r s : FxRate} : base ≠ quote → First (pairRates db base quote date) r → r.rate ≠ 0 →
      First (pairRates db base quote date) s → s.baseCurrency = base →
      MayAnswer db base quote date (.ok r.rate)
  | inverse {r s : FxRate} : base ≠ quote → First (pairRates db base quote date) r → r.rate ≠ 0 →
      First (pairRates db base quote date) s → s.baseCurrency ≠ base →
      MayAnswer db base quote date (.ok (1 / r.rate))

/-! ## The documentation -/

/-- A row of the direct pair. -/
def Direct (base quote : String) (r : FxRate) : Prop :=
  r.baseCurrency = base ∧ r.quoteCurrency = quote

instance (base quote : String) (r : FxRate) : Decidable (Direct base quote r) := instDecidableAnd

/-- A rate for the pair within the window before the date. -/
structure InWindow (db : Db) (base quote : String) (date : NaiveDate) (r : FxRate) : Prop where
  mem : r ∈ db.fxRates
  pair : Direct base quote r ∨ Direct quote base r
  nonzero : r.rate ≠ 0
  until_date : r.rateDate ≤ date
  recent : date.dayNumber ≤ r.rateDate.dayNumber + lookbackDays

/-- The row is of the latest day with a rate in the window. -/
def Latest (db : Db) (base quote : String) (date : NaiveDate) (r : FxRate) : Prop :=
  InWindow db base quote date r ∧ ∀ s, InWindow db base quote date s → s.rateDate ≤ r.rateDate

structure Documented (db : Db) (base quote : String) (date : NaiveDate)
    (answer : Except FxError ℚ) : Prop where
  missing : answer = .error (.missingRate base quote date) ↔
    ∀ r, ¬ InWindow db base quote date r
  direct : (∃ r, Latest db base quote date r ∧ Direct base quote r) →
    ∃ r, Latest db base quote date r ∧ Direct base quote r ∧ answer = .ok r.rate ∧
      ((∃ s, Latest db base quote date s ∧ Direct base quote s ∧ s.source = .manual) →
        r.source = .manual)
  inverse : (∃ r, Latest db base quote date r) →
    (¬ ∃ r, Latest db base quote date r ∧ Direct base quote r) →
    ∃ r, Latest db base quote date r ∧ Direct quote base r ∧ answer = .ok (1 / r.rate)

/-! ## When there is no doubt -/

/-- A direct and an inverse row of one day are answered with the direct rate. -/
def Agree (r s : FxRate) : Prop :=
  match r.source, s.source with
  | .manual, .ecb => True
  | .ecb, .manual => r.rate * s.rate = 1
  | _, _ => r.rate = 1 ∧ s.rate = 1

instance (r s : FxRate) : Decidable (Agree r s) := by
  unfold Agree
  cases r.source <;> cases s.source <;> infer_instance

/-- The latest rows of the pair are in the window, and they agree. -/
def Clear (db : Db) (base quote : String) (date : NaiveDate) : Prop :=
  ∀ r ∈ pairRates db base quote date,
    (∀ s ∈ pairRates db base quote date, s.rateDate ≤ r.rateDate) →
      date.dayNumber ≤ r.rateDate.dayNumber + lookbackDays ∧
        (Direct base quote r → ∀ s ∈ pairRates db base quote date,
          s.rateDate = r.rateDate → Direct quote base s → Agree r s)

instance (db : Db) (base quote : String) (date : NaiveDate) :
    Decidable (Clear db base quote date) := by
  unfold Clear
  infer_instance

/-- The checks and the key of `fx_rates`. -/
structure RatesStored (db : Db) : Prop where
  positive : ∀ r ∈ db.fxRates, 0 < r.rate
  keyed : (db.fxRates.map fun r => (r.baseCurrency, r.quoteCurrency, r.rateDate)).Nodup

/-! ## First rows -/

section

variable {db : Db} {base quote : String} {date : NaiveDate} {r s : FxRate}

theorem mem_pairRates : r ∈ pairRates db base quote date ↔
    r ∈ db.fxRates ∧ (Direct base quote r ∨ Direct quote base r) ∧ r.rateDate ≤ date := by
  rw [pairRates, List.mem_filter, decide_eq_true_eq]
  rfl

variable {rows : List FxRate}

theorem first_of_head? (h : (orderByDesc rateKey rows).head? = some r) : First rows r := by
  obtain ⟨rest, hsorted⟩ := List.head?_eq_some_iff.mp h
  have hperm : (orderByDesc rateKey rows).Perm rows := List.perm_insertionSort _ rows
  have hpairwise : (orderByDesc rateKey rows).Pairwise fun a b => rateKey b ≤ rateKey a :=
    List.pairwise_insertionSort (fun a b => rateKey b ≤ rateKey a) rows
  rw [hsorted] at hperm hpairwise
  refine ⟨hperm.mem_iff.mp List.mem_cons_self, fun s hs => ?_⟩
  rcases List.mem_cons.mp (hperm.mem_iff.mpr hs) with rfl | hs
  · exact le_rfl
  · exact (List.pairwise_cons.mp hpairwise).1 s hs

theorem exists_first (h : rows ≠ []) : ∃ r, First rows r := by
  cases hhead : (orderByDesc rateKey rows).head? with
  | some r => exact ⟨r, first_of_head? hhead⟩
  | none =>
    have hperm : (orderByDesc rateKey rows).Perm rows := List.perm_insertionSort _ rows
    rw [List.head?_eq_none_iff.mp hhead] at hperm
    exact absurd hperm.nil_eq.symm h

theorem lookup_mayAnswer (db : Db) (base quote : String) (date : NaiveDate) :
    MayAnswer db base quote date (lookup db base quote date) := by
  unfold lookup
  split
  · next heq => exact .same heq
  · next hne =>
      split
      · next hnone =>
          refine .none hne ?_
          by_contra hrows
          obtain ⟨r, hr⟩ := exists_first hrows
          have hperm : (orderByDesc rateKey (pairRates db base quote date)).Perm
              (pairRates db base quote date) := List.perm_insertionSort _ _
          have hhead : (orderByDesc rateKey (pairRates db base quote date)).head? = .none := hnone
          rw [List.head?_eq_none_iff.mp hhead] at hperm
          exact hrows hperm.nil_eq.symm
      · next r hsome =>
          have hfirst : First (pairRates db base quote date) r := first_of_head? hsome
          split
          · next hzero => exact .zero hne hfirst hzero
          · next hrate =>
              split
              · next hbase => exact .direct hne hfirst hrate hfirst hbase
              · next hbase => exact .inverse hne hfirst hrate hfirst hbase

theorem First.date_le (h : First rows r) (hs : s ∈ rows) : s.rateDate ≤ r.rateDate := by
  have hkey := h.before s hs
  rw [rateKey, rateKey, Prod.Lex.toLex_le_toLex] at hkey
  rcases hkey with hlt | ⟨heq, -⟩
  · exact hlt.le
  · exact heq.le

theorem First.precedence_le (h : First rows r) (hs : s ∈ rows) (hdate : s.rateDate = r.rateDate) :
    precedence s.source ≤ precedence r.source := by
  have hkey := h.before s hs
  rw [rateKey, rateKey, Prod.Lex.toLex_le_toLex] at hkey
  rcases hkey with hlt | ⟨-, hle⟩
  · exact absurd hdate hlt.ne
  · exact hle

theorem first_of_latest (hr : r ∈ rows) (hlatest : ∀ s ∈ rows, s.rateDate ≤ r.rateDate)
    (hprec : ∀ s ∈ rows, s.rateDate = r.rateDate → precedence s.source ≤ precedence r.source) :
    First rows r := by
  refine ⟨hr, fun s hs => ?_⟩
  rw [rateKey, rateKey, Prod.Lex.toLex_le_toLex]
  rcases (hlatest s hs).lt_or_eq with hlt | heq
  · exact Or.inl hlt
  · exact Or.inr ⟨heq, hprec s hs heq⟩

theorem precedence_injective : Function.Injective precedence := by
  intro a b h
  cases a <;> cases b <;> first | rfl | cases h

/-! ## Rows of a stored table -/

theorem RatesStored.eq_of_direct (h : RatesStored db) (hr : r ∈ db.fxRates) (hs : s ∈ db.fxRates)
    (hrd : Direct base quote r) (hsd : Direct base quote s) (hdate : r.rateDate = s.rateDate) :
    r = s :=
  List.inj_on_of_nodup_map h.keyed hr hs
    (Prod.ext (hrd.1.trans hsd.1.symm) (Prod.ext (hrd.2.trans hsd.2.symm) hdate))

theorem inWindow_iff (h : RatesStored db) : InWindow db base quote date r ↔
    r ∈ pairRates db base quote date ∧
      date.dayNumber ≤ r.rateDate.dayNumber + lookbackDays := by
  rw [mem_pairRates]
  constructor
  · intro hw
    exact ⟨⟨hw.mem, hw.pair, hw.until_date⟩, hw.recent⟩
  · rintro ⟨⟨hmem, hpair, huntil⟩, hrecent⟩
    exact ⟨hmem, hpair, (h.positive r hmem).ne', huntil, hrecent⟩

/-- When the latest row of all is in the window, the latest rows are those of its day. -/
theorem latest_iff (h : RatesStored db) (hr : r ∈ pairRates db base quote date)
    (hmax : ∀ s ∈ pairRates db base quote date, s.rateDate ≤ r.rateDate)
    (hrecent : date.dayNumber ≤ r.rateDate.dayNumber + lookbackDays) :
    Latest db base quote date s ↔
      s ∈ pairRates db base quote date ∧ s.rateDate = r.rateDate := by
  have hrw : InWindow db base quote date r := (inWindow_iff h).mpr ⟨hr, hrecent⟩
  constructor
  · rintro ⟨hw, hlatest⟩
    have hmem := ((inWindow_iff h).mp hw).1
    exact ⟨hmem, le_antisymm (hmax s hmem) (hlatest r hrw)⟩
  · rintro ⟨hmem, hdate⟩
    refine ⟨(inWindow_iff h).mpr ⟨hmem, by rwa [hdate]⟩, fun t ht => ?_⟩
    rw [hdate]
    exact hmax t ((inWindow_iff h).mp ht).1

theorem direct_of_base (hs : s ∈ pairRates db base quote date) (hne : base ≠ quote) :
    s.baseCurrency = base ↔ Direct base quote s := by
  constructor
  · intro hbase
    rcases (mem_pairRates.mp hs).2.1 with hdirect | hinverse
    · exact hdirect
    · exact absurd (hbase.symm.trans hinverse.1) hne
  · exact fun hdirect => hdirect.1

theorem inverse_of_base (hs : s ∈ pairRates db base quote date) (hbase : s.baseCurrency ≠ base) :
    Direct quote base s := by
  rcases (mem_pairRates.mp hs).2.1 with hdirect | hinverse
  · exact absurd hdirect.1 hbase
  · exact hinverse

/-! ## The answers of a clear table -/

/-- What the documentation asks for, with the latest row of all in the window. -/
theorem documented_of_latest (h : RatesStored db) {answer : ℚ}
    (hr : r ∈ pairRates db base quote date)
    (hmax : ∀ s ∈ pairRates db base quote date, s.rateDate ≤ r.rateDate)
    (hrecent : date.dayNumber ≤ r.rateDate.dayNumber + lookbackDays)
    (hdirect : ∀ s ∈ pairRates db base quote date, s.rateDate = r.rateDate →
      Direct base quote s → answer = s.rate)
    (hinverse : (∀ s ∈ pairRates db base quote date, s.rateDate = r.rateDate →
      ¬ Direct base quote s) → Direct quote base r ∧ answer = 1 / r.rate) :
    Documented db base quote date (.ok answer) where
  missing := by
    constructor
    · intro herror
      cases herror
    · intro hnone
      exact absurd ((inWindow_iff h).mpr ⟨hr, hrecent⟩) (hnone r)
  direct := by
    rintro ⟨s, hs, hsd⟩
    obtain ⟨hmem, hdate⟩ := (latest_iff h hr hmax hrecent).mp hs
    refine ⟨s, hs, hsd, congrArg _ (hdirect s hmem hdate hsd), ?_⟩
    rintro ⟨t, ht, htd, hmanual⟩
    obtain ⟨htmem, htdate⟩ := (latest_iff h hr hmax hrecent).mp ht
    have hsame : s = t := h.eq_of_direct (mem_pairRates.mp hmem).1 (mem_pairRates.mp htmem).1 hsd
      htd (hdate.trans htdate.symm)
    rwa [hsame]
  inverse := by
    rintro - hnone
    have hrl : Latest db base quote date r := (latest_iff h hr hmax hrecent).mpr ⟨hr, rfl⟩
    obtain ⟨hri, hanswer⟩ := hinverse fun s hs hdate hsd =>
      hnone ⟨s, (latest_iff h hr hmax hrecent).mpr ⟨hs, hdate⟩, hsd⟩
    exact ⟨r, hrl, hri, congrArg _ hanswer⟩

theorem First.same (hr : First rows r) (hs : First rows s) :
    r.rateDate = s.rateDate ∧ r.source = s.source := by
  have hdate := le_antisymm (hs.date_le hr.mem) (hr.date_le hs.mem)
  exact ⟨hdate, precedence_injective
    (le_antisymm (hs.precedence_le hr.mem hdate) (hr.precedence_le hs.mem hdate.symm))⟩

theorem agree_iff : Agree r s ↔ (r.source = .manual ∧ s.source = .ecb) ∨
    (r.source = .ecb ∧ s.source = .manual ∧ r.rate * s.rate = 1) ∨
    (r.source = s.source ∧ r.rate = 1 ∧ s.rate = 1) := by
  unfold Agree
  cases r.source <;> cases s.source <;> simp

/-- An empty selection is answered with the error, and nothing is in the window. -/
theorem documented_of_nil (h : RatesStored db) (hnone : pairRates db base quote date = []) :
    Documented db base quote date (.error (.missingRate base quote date)) := by
  have hout : ∀ r, ¬ InWindow db base quote date r := fun r hw => by
    have hmem := ((inWindow_iff h).mp hw).1
    rw [hnone] at hmem
    cases hmem
  refine ⟨⟨fun _ => hout, fun _ => rfl⟩, ?_, ?_⟩
  · rintro ⟨r, hr, -⟩
    exact absurd hr.1 (hout r)
  · rintro ⟨r, hr⟩
    exact absurd hr.1 (hout r)

/-- If the latest rows are in the window and agree, every answer is the documented one. -/
theorem documented_of_clear (h : RatesStored db) (hne : base ≠ quote)
    (hclear : Clear db base quote date) {answer : Except FxError ℚ}
    (hanswer : MayAnswer db base quote date answer) : Documented db base quote date answer := by
  have hunique : ∀ {b q : String} {r s : FxRate}, r ∈ pairRates db base quote date →
      s ∈ pairRates db base quote date → Direct b q r → Direct b q s → r.rateDate = s.rateDate →
      r = s := fun hr hs => h.eq_of_direct (mem_pairRates.mp hr).1 (mem_pairRates.mp hs).1
  cases hanswer with
  | same heq => exact absurd heq hne
  | none _ hnone => exact documented_of_nil h hnone
  | zero _ hr hzero =>
    exact absurd hzero (h.positive _ (mem_pairRates.mp hr.mem).1).ne'
  | @direct r s _ hr hrate hs hbase =>
    obtain ⟨hdate, hsource⟩ := hr.same hs
    have hsd := (direct_of_base hs.mem hne).mp hbase
    have hmax := fun t ht => hs.date_le (s := t) ht
    obtain ⟨hrecent, hagree⟩ := hclear s hs.mem hmax
    have hrates : r.rate = s.rate := by
      rcases (mem_pairRates.mp hr.mem).2.1 with hrd | hri
      · rw [hunique hr.mem hs.mem hrd hsd hdate]
      · -- A row of each direction comes first, so they tie.
        rcases agree_iff.mp (hagree hsd r hr.mem hdate hri) with
          ⟨hm, he⟩ | ⟨he, hm, -⟩ | ⟨-, hs1, hr1⟩
        · rw [hm, he] at hsource
          cases hsource
        · rw [hm, he] at hsource
          cases hsource
        · rw [hs1, hr1]
    refine documented_of_latest h hs.mem hmax hrecent (fun t ht htdate htd => ?_) fun hnone => ?_
    · rw [hunique ht hs.mem htd hsd htdate, hrates]
    · exact absurd hsd (hnone s hs.mem rfl)
  | @inverse r s _ hr hrate hs hbase =>
    obtain ⟨hdate, hsource⟩ := hr.same hs
    have hsi := inverse_of_base hs.mem hbase
    have hmax := fun t ht => hs.date_le (s := t) ht
    obtain ⟨hrecent, -⟩ := hclear s hs.mem hmax
    refine documented_of_latest h hs.mem hmax hrecent (fun t ht htdate htd => ?_) fun hnone => ?_
    · have hagree := (hclear t ht fun u hu => htdate ▸ hmax u hu).2 htd s hs.mem htdate.symm hsi
      rcases agree_iff.mp hagree with ⟨hm, he⟩ | ⟨he, hm, hone⟩ | ⟨-, ht1, hs1⟩
      · have hle := hs.precedence_le ht htdate
        rw [hm, he] at hle
        exact absurd hle (by decide)
      · -- The inverse row comes first alone.
        have hrs : r = s := by
          rcases (mem_pairRates.mp hr.mem).2.1 with hrd | hri
          · rw [hunique hr.mem ht hrd htd (hdate.trans htdate.symm), he, hm] at hsource
            cases hsource
          · exact hunique hr.mem hs.mem hri hsi hdate
        rw [hrs] at hrate ⊢
        rw [eq_comm, eq_div_iff hrate]
        exact hone
      · have hr1 : r.rate = 1 := by
          rcases (mem_pairRates.mp hr.mem).2.1 with hrd | hri
          · rw [hunique hr.mem ht hrd htd (hdate.trans htdate.symm), ht1]
          · rw [hunique hr.mem hs.mem hri hsi hdate, hs1]
        rw [hr1, ht1, one_div_one]
    · rcases (mem_pairRates.mp hr.mem).2.1 with hrd | hri
      · exact absurd hrd (hnone r hr.mem hdate)
      · rw [hunique hr.mem hs.mem hri hsi hdate]
        exact ⟨hsi, rfl⟩

/-! ## The table of documented answers -/

/-- With a documented answer for every order of the rows, the latest one is in the window. -/
theorem recent_of_documented (hne : base ≠ quote) (h : RatesStored db)
    (hall : ∀ answer, MayAnswer db base quote date answer → Documented db base quote date answer)
    (hr : r ∈ pairRates db base quote date)
    (hmax : ∀ s ∈ pairRates db base quote date, s.rateDate ≤ r.rateDate) :
    date.dayNumber ≤ r.rateDate.dayNumber + lookbackDays := by
  by_contra hold
  have hout : ∀ s, ¬ InWindow db base quote date s := fun s hw => by
    obtain ⟨hmem, hrecent⟩ := (inWindow_iff h).mp hw
    have hle := NaiveDate.dayNumber_strictMono.monotone (hmax s hmem)
    omega
  obtain ⟨f, hf⟩ := exists_first (List.ne_nil_of_mem hr)
  have hrate := (h.positive f (mem_pairRates.mp hf.mem).1).ne'
  by_cases hbase : f.baseCurrency = base
  · cases (hall _ (.direct hne hf hrate hf hbase)).missing.mpr hout
  · cases (hall _ (.inverse hne hf hrate hf hbase)).missing.mpr hout

theorem rate_of_documented (h : RatesStored db) (hr : r ∈ pairRates db base quote date)
    (hmax : ∀ s ∈ pairRates db base quote date, s.rateDate ≤ r.rateDate)
    (hrecent : date.dayNumber ≤ r.rateDate.dayNumber + lookbackDays) (hrd : Direct base quote r)
    {x : ℚ} (hx : Documented db base quote date (.ok x)) : x = r.rate := by
  have hlatest : Latest db base quote date r := (latest_iff h hr hmax hrecent).mpr ⟨hr, rfl⟩
  obtain ⟨r', hr', hrd', hok, -⟩ := hx.direct ⟨r, hlatest, hrd⟩
  obtain ⟨hmem', hdate'⟩ := (latest_iff h hr hmax hrecent).mp hr'
  rw [h.eq_of_direct (mem_pairRates.mp hmem').1 (mem_pairRates.mp hr).1 hrd' hrd hdate'] at hok
  exact Except.ok.inj hok

/-- If every answer is the documented one, the two directions of the latest day agree. -/
theorem agree_of_documented (hne : base ≠ quote) (h : RatesStored db)
    (hall : ∀ answer, MayAnswer db base quote date answer → Documented db base quote date answer)
    (hr : r ∈ pairRates db base quote date)
    (hmax : ∀ s ∈ pairRates db base quote date, s.rateDate ≤ r.rateDate)
    (hrd : Direct base quote r) (hs : s ∈ pairRates db base quote date)
    (hdate : s.rateDate = r.rateDate) (hsi : Direct quote base s) : Agree r s := by
  have hrecent := recent_of_documented hne h hall hr hmax
  have hrpos := h.positive r (mem_pairRates.mp hr).1
  have hspos := h.positive s (mem_pairRates.mp hs).1
  -- Every answer is the rate of the direct row.
  have honly : ∀ x, MayAnswer db base quote date (.ok x) → x = r.rate := fun x hx =>
    rate_of_documented h hr hmax hrecent hrd (hall _ hx)
  have hsbase : s.baseCurrency ≠ base := fun hbase => hne (hbase.symm.trans hsi.1)
  have hday : ∀ t ∈ pairRates db base quote date, t.rateDate = r.rateDate → t = r ∨ t = s := by
    intro t ht htdate
    rcases (mem_pairRates.mp ht).2.1 with htd | hti
    · exact Or.inl (h.eq_of_direct (mem_pairRates.mp ht).1 (mem_pairRates.mp hr).1 htd hrd htdate)
    · exact Or.inr (h.eq_of_direct (mem_pairRates.mp ht).1 (mem_pairRates.mp hs).1 hti hsi
        (htdate.trans hdate.symm))
  have hsmax : ∀ t ∈ pairRates db base quote date, t.rateDate ≤ s.rateDate := hdate ▸ hmax
  have hsfirst : precedence r.source ≤ precedence s.source →
      First (pairRates db base quote date) s := fun hle =>
    first_of_latest hs hsmax fun t ht htdate => by
      rcases hday t ht (htdate.trans hdate) with rfl | rfl
      · exact hle
      · exact le_rfl
  rw [agree_iff]
  by_cases hsource : r.source = s.source
  · have hrfirst : First (pairRates db base quote date) r :=
      first_of_latest hr hmax fun t ht htdate => by
        rcases hday t ht htdate with rfl | rfl
        · exact le_rfl
        · rw [hsource]
    have hsf := hsfirst (by rw [hsource])
    have hself := honly _ (.inverse hne hrfirst hrpos.ne' hsf hsbase)
    have hother := honly _ (.direct hne hsf hspos.ne' hrfirst hrd.1)
    have hone : r.rate = 1 := by
      rw [div_eq_iff hrpos.ne'] at hself
      nlinarith
    exact Or.inr (Or.inr ⟨hsource, hone, hother.trans hone⟩)
  · cases hrs : r.source with
    | manual =>
      left
      refine ⟨rfl, ?_⟩
      cases hss : s.source with
      | manual => exact absurd (hrs.trans hss.symm) hsource
      | ecb => rfl
    | ecb =>
      right; left
      have hmanual : s.source = .manual := by
        cases hss : s.source with
        | manual => rfl
        | ecb => exact absurd (hrs.trans hss.symm) hsource
      have hsf := hsfirst (by rw [hrs, hmanual]; decide)
      have hinv := honly _ (.inverse hne hsf hspos.ne' hsf hsbase)
      refine ⟨rfl, hmanual, ?_⟩
      rw [← hinv, one_div_mul_cancel hspos.ne']

end

/-- Whatever order tied rows come in, the lookup is as documented, exactly when the table is
clear. -/
theorem documented_iff_clear {db : Db} {base quote : String} {date : NaiveDate}
    (hne : base ≠ quote) (h : RatesStored db) :
    (∀ answer, MayAnswer db base quote date answer → Documented db base quote date answer) ↔
      Clear db base quote date :=
  ⟨fun hall _ hr hmax => ⟨recent_of_documented hne h hall hr hmax, fun hrd _ hs hdate hsi =>
      agree_of_documented hne h hall hr hmax hrd hs hdate hsi⟩,
    fun hclear _ hanswer => documented_of_clear h hne hclear hanswer⟩

namespace Sample

open OpenAccounting.Sample

/-- A rate between dollar and euro on a day of March. -/
def dollarRate (day : ℕ) (rate : ℚ) (source : FxSource) : FxRate :=
  { baseCurrency := "USD", quoteCurrency := "EUR", rate := rate, rateDate := march day,
    source := source }

/-- The same pair the other way round. -/
def euroRate (day : ℕ) (rate : ℚ) (source : FxSource) : FxRate :=
  { baseCurrency := "EUR", quoteCurrency := "USD", rate := rate, rateDate := march day,
    source := source }

def rates (rows : List FxRate) : Db := { OpenAccounting.Sample.db with fxRates := rows }

def nextYear : NaiveDate := (NaiveDate.fromYmdOpt 2027 3 1).getD default

/-- The feed has a direct rate and a manual entry the inverse one. -/
def overridden : Db := rates [dollarRate 3 (9 / 10) .ecb, euroRate 3 2 .manual]

/-- Both directions are entered by hand. -/
def tied : Db := rates [dollarRate 3 (9 / 10) .manual, euroRate 3 2 .manual]

theorem stored_pair {rate rate' : ℚ} {source source' : FxSource} (h : 0 < rate) (h' : 0 < rate') :
    RatesStored (rates [dollarRate 3 rate source, euroRate 3 rate' source']) where
  positive := by
    intro r hr
    rcases List.mem_pair.mp hr with rfl | rfl
    · exact h
    · exact h'
  keyed := by
    show [("USD", "EUR", march 3), ("EUR", "USD", march 3)].Nodup
    decide

theorem tied_first {r : FxRate} (hr : r ∈ pairRates tied "USD" "EUR" (march 5)) :
    First (pairRates tied "USD" "EUR" (march 5)) r := by
  refine ⟨hr, fun s hs => ?_⟩
  rcases List.mem_pair.mp (mem_pairRates.mp hs).1 with rfl | rfl <;>
    rcases List.mem_pair.mp (mem_pairRates.mp hr).1 with rfl | rfl <;> exact le_rfl

end Sample

theorem rate_of_pair {rate rate' x : ℚ} {source source' : FxSource} (h : 0 < rate) (h' : 0 < rate')
    (hx : Documented (Sample.rates [Sample.dollarRate 3 rate source, Sample.euroRate 3 rate' source'])
      "USD" "EUR" (OpenAccounting.Sample.march 5) (.ok x)) : x = rate := by
  have hdate : OpenAccounting.Sample.march 3 ≤ OpenAccounting.Sample.march 5 := by decide
  have hrecent : (OpenAccounting.Sample.march 5).dayNumber ≤
      (OpenAccounting.Sample.march 3).dayNumber + lookbackDays := by decide
  refine rate_of_documented (r := Sample.dollarRate 3 rate source) (Sample.stored_pair h h')
    (mem_pairRates.mpr ⟨List.mem_cons_self, Or.inl ⟨rfl, rfl⟩, hdate⟩) ?_ hrecent ⟨rfl, rfl⟩ hx
  intro s hs
  rcases List.mem_pair.mp (mem_pairRates.mp hs).1 with rfl | rfl <;> exact le_rfl

/-- An answer for a row of last year, for an inverse row that precedes the direct one, and for two
rows that tie. -/
theorem rate_not_documented :
    (RatesStored (Sample.rates [Sample.dollarRate 3 (9 / 10) .ecb]) ∧
      ¬ Documented (Sample.rates [Sample.dollarRate 3 (9 / 10) .ecb]) "USD" "EUR" Sample.nextYear
        (lookup (Sample.rates [Sample.dollarRate 3 (9 / 10) .ecb]) "USD" "EUR" Sample.nextYear)) ∧
    (RatesStored Sample.overridden ∧
      ¬ Documented Sample.overridden "USD" "EUR" (OpenAccounting.Sample.march 5)
        (lookup Sample.overridden "USD" "EUR" (OpenAccounting.Sample.march 5))) ∧
    RatesStored Sample.tied ∧
      ∃ answer, MayAnswer Sample.tied "USD" "EUR" (OpenAccounting.Sample.march 5) answer ∧
        ¬ Documented Sample.tied "USD" "EUR" (OpenAccounting.Sample.march 5) answer := by
  refine ⟨⟨⟨?_, List.nodup_singleton _⟩, fun h => ?_⟩,
    ⟨Sample.stored_pair (by norm_num) (by norm_num), fun h => ?_⟩,
    Sample.stored_pair (by norm_num) (by norm_num), .ok (1 / (9 / 10)), ?_, fun h => ?_⟩
  · intro r hr
    rw [List.mem_singleton.mp hr]
    norm_num [Sample.dollarRate]
  · have hanswer : lookup (Sample.rates [Sample.dollarRate 3 (9 / 10) .ecb]) "USD" "EUR"
        Sample.nextYear = .ok (9 / 10) := by decide +kernel
    rw [hanswer] at h
    cases h.missing.mpr fun r hw => by
      have hrecent := hw.recent
      rw [List.mem_singleton.mp hw.mem] at hrecent
      exact absurd hrecent (by decide)
  · have hrate : (1 / 2 : ℚ) = 9 / 10 := rate_of_pair (by norm_num) (by norm_num) h
    norm_num at hrate
  · refine .inverse (r := Sample.dollarRate 3 (9 / 10) .manual)
      (s := Sample.euroRate 3 2 .manual) (by decide) ?_ (by norm_num [Sample.dollarRate]) ?_
      (by decide)
    · exact Sample.tied_first (by decide +kernel)
    · exact Sample.tied_first (by decide)
  · have hrate := rate_of_pair (by norm_num) (by norm_num) h
    norm_num at hrate

/-- With a direct rate entered by hand beside an inverse one of the feed there is no doubt. -/
theorem documented_iff_clear_pair :
    Documented (Sample.rates [Sample.dollarRate 3 (9 / 10) .manual, Sample.euroRate 3 2 .ecb])
      "USD" "EUR" (OpenAccounting.Sample.march 5)
      (lookup (Sample.rates [Sample.dollarRate 3 (9 / 10) .manual, Sample.euroRate 3 2 .ecb])
        "USD" "EUR" (OpenAccounting.Sample.march 5)) :=
  (documented_iff_clear (by decide) (Sample.stored_pair (by norm_num) (by norm_num))).mpr
    (by decide) _ (lookup_mayAnswer _ _ _ _)

end OpenAccounting.Fx
