import OpenAmq.Zyre.Family
import OpenAmq.Zyre.Joins

/-!
# The graph of resources

Resources refer to each other as parents and children, as joins of a pipe and a feed and as the
asynclets of pipes. Deletions do not take back all of these: that of a feed leaves its joins in the
lists of their pipes, that of a pipe its messages in the table, and that of an asynclet leaves the
pipe without one.

* `Whole` — the table and all references are as they should be
* `Intact` — the invariant
* `graph_intact` — no step of a run of these uses what has been destroyed
-/

namespace OpenAmq.Zyre

open OpenAmq.Lib OpenAmq.Zyre.Tree Option List

variable {env : Env} {t t' : Tree} {i : ResourceId}

/-- The table holds exactly the resources that are there, and all references lead to such. -/
structure Whole (t : Tree) : Prop where
  table : ∀ q i, t.table q = some i ↔ t.path i = some q
  children : ∀ p c, c ∈ t.children p → t.Live c
  joins : ∀ o e, e ∈ t.joins o → t.Live e.2
  ends : ∀ j x, t.server j = some (.join x) → t.Live x.pipe ∧ t.Live x.feed
  asynclet : ∀ p pipe, t.server p = some (.pipe pipe) → ∃ a, pipe.asynclet = some a ∧ t.Live a ∧
    ∀ a', Awaited t a' ∧ t.parent a' = some p ↔ a' = a
  messages : ∀ a m, t.server a = some (.message m) → ∀ p, t.parent a = some p → t.Live p

/-! ## Asynclets -/

/-- Every pipe has an asynclet, and it is the only message below it that is pending. -/
structure WaitingOk (t : Tree) : Prop where
  asynclet : ∀ p o, t.core p = some (.pipe o) → ∃ a, o = some a ∧ Awaited t a ∧ t.parent a = some p
  only : ∀ a p, Awaited t a → t.parent a = some p → t.core p = some (.pipe (some a))

variable {a : ResourceId} {requests : List BackendRequest} {request : Request} (now : Nat)

theorem awaited_iff_core : Awaited t a ↔ ∃ m, t.core a = some (.message m) ∧ m.pending = true :=
  exists_congr fun _ => and_congr_left fun _ => core_message_iff.symm

theorem Awaited.core_ne (h : Awaited t a) : t.core a ≠ none := by
  obtain ⟨m, hm, -⟩ := awaited_iff_core.mp h
  rw [hm]
  nofun

theorem awaited_congr (h : t'.core a = t.core a) : Awaited t' a ↔ Awaited t a := by
  rw [awaited_iff_core, awaited_iff_core, h]

section

variable (h : WaitingOk t)

include h

theorem WaitingOk.calm (hc : Calm t t') : WaitingOk t' := by
  refine ⟨fun p o hp => ?_, fun a p ha hparent => ?_⟩
  · rw [hc.core] at hp
    obtain ⟨a, ho, ha, hparent⟩ := h.asynclet p o hp
    exact ⟨a, ho, (awaited_congr (hc.core a)).mpr ha, (hc.parent a ha.core_ne).trans hparent⟩
  · have ha := (awaited_congr (hc.core a)).mp ha
    rw [hc.parent a ha.core_ne] at hparent
    rw [hc.core]
    exact h.only a p ha hparent

theorem WaitingOk.newPipe (hfresh : t.FreshOk) (hn : NewPipe t t' i a) :
    WaitingOk t' := by
  -- what has waited, or has been waited in, is older
  have hold : ∀ {k}, t.core k ≠ none → t'.core k = t.core k := by
    intro k hk
    obtain ⟨x, hx⟩ := ne_none_iff_exists'.mp hk
    have hlt := hfresh.lt_of_live (live_of_core hx)
    rw [hn.core, if_neg (Nat.ne_of_lt (Nat.lt_of_lt_of_le hlt hn.fresh.1)),
      if_neg (Nat.ne_of_lt (Nat.lt_of_lt_of_le hlt hn.fresh.2.1))]
  have hai := hn.fresh.2.2.symm
  refine ⟨fun p o hp => ?_, fun b p hb hparent => ?_⟩
  · rw [hn.core] at hp
    split at hp
    · next hpi =>
      cases hp
      refine ⟨a, rfl, awaited_iff_core.mpr ⟨Message.new, ?_, rfl⟩, hpi ▸ hn.parent.1⟩
      rw [hn.core, if_neg hai, if_pos rfl]
    · split at hp
      · cases hp
      · obtain ⟨b, ho, hb, hparent⟩ := h.asynclet p o hp
        exact ⟨b, ho, (awaited_congr (hold hb.core_ne)).mpr hb,
          (hn.parent.2 b hb.core_ne).trans hparent⟩
  · by_cases hba : b = a
    · rw [hba, hn.parent.1] at hparent
      rw [← some.inj hparent, hba, hn.core, if_pos rfl]
    · have hb' : Awaited t b := by
        obtain ⟨m, hm, hpending⟩ := awaited_iff_core.mp hb
        rw [hn.core] at hm
        split at hm
        · cases hm
        · exact awaited_iff_core.mpr ⟨m, hm, hpending⟩
      rw [hn.parent.2 b hb'.core_ne] at hparent
      have hp := h.only b p hb' hparent
      rw [hold (by rw [hp]; nofun), hp]

theorem WaitingOk.heldAt {waiting : Waiting} (hh : HeldAt t t' i waiting) :
    WaitingOk t' := by
  obtain ⟨m, hm, hpending, hcore, hparent, -⟩ := hh.core
  have hawaited : ∀ a, Awaited t' a ↔ Awaited t a := by
    intro a
    by_cases hai : a = i
    · rw [hai]
      exact iff_of_true (awaited_iff_core.mpr ⟨_, (hcore i).trans (if_pos rfl), hpending⟩)
        (awaited_iff_core.mpr ⟨m, hm, hpending⟩)
    · exact awaited_congr ((hcore a).trans (if_neg hai))
  refine ⟨fun p o hp => ?_, fun a p ha hpa => ?_⟩
  · rw [hcore] at hp
    split at hp
    · cases hp
    · obtain ⟨a, ho, ha, hpa⟩ := h.asynclet p o hp
      exact ⟨a, ho, (hawaited a).mpr ha, (hparent a).trans hpa⟩
  · rw [hparent] at hpa
    have hp := h.only a p ((hawaited a).mp ha) hpa
    have hpi : p ≠ i := by
      rintro rfl
      rw [hm] at hp
      cases hp
    rw [hcore, if_neg hpi, hp]

theorem WaitingOk.refilled {a' : ResourceId} {m m' : Message}
    (hfresh : t.FreshOk) (hr : Refilled t t' i a a' m m') : WaitingOk t' := by
  have hne : ∀ {k x}, t.core k = some x → k ≠ a' := fun hk =>
    Nat.ne_of_lt (Nat.lt_of_lt_of_le (hfresh.lt_of_live (live_of_core hk)) hr.fresh)
  have hai : a ≠ i := by
    rintro rfl
    have hcore := hr.asynclet
    rw [hr.message] at hcore
    cases hcore
  have hparent : t.parent a = some i := by
    obtain ⟨b, ho, -, hparent⟩ := h.asynclet i _ hr.asynclet
    exact some.inj ho ▸ hparent
  refine ⟨fun p o hp => ?_, fun b p hb hpb => ?_⟩
  · rw [hr.core] at hp
    split at hp
    · cases hp
    · split at hp
      · next hpi =>
        cases hp
        refine ⟨a', rfl, awaited_iff_core.mpr ⟨Message.new, ?_, rfl⟩, hpi ▸ hr.parent.1⟩
        rw [hr.core, if_pos rfl]
      · split at hp
        · cases hp
        · next hpi _ =>
          obtain ⟨b, ho, hb, hpb⟩ := h.asynclet p o hp
          obtain ⟨n, hn, -⟩ := awaited_iff_core.mp hb
          have hba : b ≠ a := by
            rintro rfl
            exact hpi (some.inj (hpb.symm.trans hparent))
          have hbi : b ≠ i := by
            rintro rfl
            rw [hr.asynclet] at hn
            cases hn
          refine ⟨b, ho, (awaited_congr ?_).mpr hb, (hr.parent.2 b hb.core_ne).trans hpb⟩
          rw [hr.core, if_neg (hne hn), if_neg hbi, if_neg hba]
  · by_cases hba' : b = a'
    · rw [hba', hr.parent.1] at hpb
      have hia' := hne hr.asynclet
      rw [← some.inj hpb, hba', hr.core, if_neg hia', if_pos rfl]
    · obtain ⟨n, hn, hpending⟩ := awaited_iff_core.mp hb
      rw [hr.core, if_neg hba'] at hn
      split at hn
      · cases hn
      · split at hn
        · cases hn
          rw [hr.filled.1] at hpending
          cases hpending
        · next hba =>
          have hb : Awaited t b := awaited_iff_core.mpr ⟨n, hn, hpending⟩
          rw [hr.parent.2 b hb.core_ne] at hpb
          have hp := h.only b p hb hpb
          have hpi : p ≠ i := by
            rintro rfl
            rw [hr.asynclet] at hp
            cases hp
            exact hba rfl
          have hpa : p ≠ a := by
            rintro rfl
            rw [hr.message] at hp
            cases hp
          rw [hr.core, if_neg (hne hp), if_neg hpi, if_neg hpa, hp]

theorem WaitingOk.gone {m : Message} (hg : Gone t t' i)
    (hm : t.server i = some (.message m)) (hpending : m.pending = false) : WaitingOk t' := by
  have hi := core_message_iff.mpr hm
  have hne : ∀ {a}, Awaited t a → a ≠ i := by
    rintro a ha rfl
    obtain ⟨n, hn, hn'⟩ := ha
    cases hm.symm.trans hn
    rw [hpending] at hn'
    cases hn'
  refine ⟨fun p o hp => ?_, fun a p ha hpa => ?_⟩
  · rw [hg.core] at hp
    split at hp
    · cases hp
    · obtain ⟨a, ho, ha, hpa⟩ := h.asynclet p o hp
      refine ⟨a, ho, (awaited_congr ?_).mpr ha, ?_⟩
      · rw [hg.core, if_neg (hne ha)]
      · rw [hg.parent, if_neg (hne ha), hpa]
  · have hai : a ≠ i := by
      rintro rfl
      obtain ⟨n, hn, -⟩ := awaited_iff_core.mp ha
      rw [hg.core, if_pos rfl] at hn
      cases hn
    rw [hg.parent, if_neg hai] at hpa
    have hp := h.only a p ((awaited_congr ((hg.core a).trans (if_neg hai))).mp ha) hpa
    have hpi : p ≠ i := by
      rintro rfl
      rw [hi] at hp
      cases hp
    rw [hg.core, if_neg hpi, hp]

theorem WaitingOk.posted {A : Attrs → Prop} (hfresh : t.FreshOk)
    (hp : Posted env A t i t' requests) : WaitingOk t' := by
  rcases hp.calm_or_newPipe with hcalm | ⟨k, a, hnew⟩
  · exact h.calm hcalm
  · exact h.newPipe hfresh hnew

end

/-! ## The invariant -/

/-- What holds after every step. -/
structure Intact (env : Env) (t : Tree) : Prop where
  base : Base env t
  joins : JoinsOk t
  family : FamilyOk t
  waiting : WaitingOk t

theorem Intact.ends (h : Intact env t) {j : ResourceId} {x : Join}
    (hj : t.server j = some (.join x)) : t.Live x.pipe ∧ t.Live x.feed := by
  obtain ⟨_, _, ⟨⟨_, hpipe⟩, ⟨_, _, hfeed⟩, -, -⟩, -⟩ := h.joins.listed j x (kind_join_iff.mpr hj)
  exact ⟨live_of_kind hpipe, live_of_kind hfeed⟩

theorem Intact.whole (h : Intact env t) : Whole t := by
  refine ⟨h.base.table, fun p c => h.family.live, fun o e he => ?_, fun j x => h.ends,
    fun p pipe hp => ?_, fun a m hm p hp => ?_⟩
  · obtain ⟨j, x, _, _, hj, -, heq, -⟩ := h.joins.entry o e he
    rw [heq]
    exact live_of_kind hj
  · obtain ⟨a, ho, ha, hparent⟩ := h.waiting.asynclet p _ (core_of_server hp)
    refine ⟨a, ho, live_of_parent hparent, fun a' => ⟨fun ⟨ha', hp'⟩ => ?_, ?_⟩⟩
    · have honly := h.waiting.only a' p ha' hp'
      rw [core_of_server hp] at honly
      have hcore : Core.pipe pipe.asynclet = .pipe (some a') := some.inj honly
      rw [ho] at hcore
      exact (some.inj (Core.pipe.inj hcore)).symm
    · rintro rfl
      exact ⟨ha, hparent⟩
  · rcases h.family.nests a p _ hp (typeOf_of_server hm) with ⟨y, hy, -⟩ | ⟨-, hcontent⟩
    · exact live_iff_typeOf.mpr ⟨y, hy⟩
    · cases hcontent

theorem Intact.reads (h : Intact env t) (hi : t.Live i) : Reads t i := by
  have hreports : ∀ {k}, t.Live k → Reportable t k := fun hk =>
    ⟨hk, fun _ hx => (h.ends hx).2⟩
  exact ⟨hreports hi, fun c hc => hreports (h.family.live hc)⟩

/-! ## Steps -/

/--
The resource can be deleted, and nothing is left that refers to it.

A feed has no joins, and a pipe always leaves its messages behind. A join is not deleted by halves,
and is not taken for another one by its key. A message is not the asynclet of a pipe, and the
parent of a content is still there.
-/
def Spares (t : Tree) (failed : Bool) (i : ResourceId) : Server → Prop
  | .domain => True
  | .feed f => f.joins = []
  | .pipe _ => False
  | .join _ => failed = false ∧ Unmixed t i
  | .message m => failed = false → m.pending = false
  | .content _ => failed = false → ∀ p, t.parent i = some p → t.Live p

/-- What the request deletes leaves nothing behind, and the contents that it refers to still have
their parents. -/
structure RequestKeeps (t : Tree) (request : Request) : Prop where
  delete : request.method = .delete → ∀ i s, Target t request i → ¬ Unmodified t i request →
    ¬ Lasts t i → t.server i = some s → Spares t request.failed i s
  contents : request.method = .post → ∀ i f, Target t request i → t.server i = some (.feed f) →
    ∀ items, Elements request.failed request (some "message".toList) items →
      ∀ x ∈ items, ∀ k, reference t request.rootUri x = some (some k) →
        t.typeOf k = some .content → ∀ p, t.parent k = some p → t.Live p

/-- The steps that keep all references. -/
def Keeps (s : State) : Event → Prop
  | .request request => RequestKeeps s.tree request
  | .deliver _ => True
  | .close _ => True

theorem Intact.requestReads (h : Intact env t) (hk : RequestKeeps t request) :
    RequestReads t request := by
  have hlive : ∀ {i}, Target t request i → t.Live i := fun hi => h.base.table.live hi.2
  refine ⟨fun _ i hi _ => h.reads (hlive hi), fun hpost i hi => ⟨?_, ?_⟩⟩
  · intro name attrs children rest _ k hknown
    refine h.reads ?_
    cases hknown with
    | feed _ _ _ _ hk => exact h.base.table.live hk
    | @join p _ _ key _ _ hpipe _ _ hfind =>
      have hmem : (key, k) ∈ t.joins i := by
        rw [joins_of_server hpipe]
        exact mem_of_find?_eq_some hfind
      exact h.whole.joins i (key, k) hmem
  · intro f hf items helements x hx k href
    have hklive : t.Live k := by
      rw [reference] at href
      obtain ⟨element, -, href⟩ := bind_eq_some_iff.mp href
      obtain ⟨uri, -, href⟩ := map_eq_some_iff.mp href
      exact live_of_parseUri h.base.table href
    exact h.family.detachable hklive (hk.contents hpost i f hi hf items helements x hx k href)

theorem Intact.requestDeletes (h : Intact env t) (hk : RequestKeeps t request) :
    RequestDeletes t request := by
  intro hdelete i hi hmodified
  have hlive : t.Live i := h.base.table.live hi.2
  have hspares : ∀ {s}, t.server i = some s → ¬ Lasting s → Spares t request.failed i s := by
    refine fun hs hnot => hk.delete hdelete i _ hi hmodified ?_ hs
    rintro ⟨s', hs', hlasting⟩
    obtain rfl := some.inj (hs.symm.trans hs')
    exact hnot hlasting
  refine ⟨fun hfailed => h.family.detachable hlive fun hcontent => ?_, fun f hf hdynamic => ?_,
    fun p hp => (hspares hp id).elim, fun x hx _ => h.ends hx⟩
  · obtain ⟨x, hx⟩ := typeOf_eq_content.mp hcontent
    exact hspares hx id hfailed
  · have hjoins : t.joins i = [] := by
      rw [joins_of_server hf]
      exact hspares hf (by rw [Lasting, hdynamic]; decide)
    refine ⟨hlive, fun k j hmem => ?_, ?_⟩
    · rw [hjoins] at hmem
      cases hmem
    · rw [hjoins]
      exact nodup_nil

/-- A step that keeps to its names fails no assertion. -/
theorem yields_step {s : State} {e : Event} (h : Intact env s.tree) (hk : Keeps s e) :
    Yields (step env s e) (fun _ => True) (· ≠ .destroyed) := by
  cases e with
  | request request =>
    exact (yields_handle (open_work s request) h.base (.inl (h.requestReads hk)) (.inr (by decide))
      (.inl (h.requestDeletes hk)) (.inr (by decide))).bind fun _ _ => yields_pure trivial
  | deliver d =>
    have hdelivers : Delivers s.tree d := by
      intro i _ pipe hpipe
      obtain ⟨a, hasynclet, hlive, honly⟩ := h.whole.asynclet i pipe hpipe
      obtain ⟨⟨m, hm, -⟩, -⟩ := (honly a).mpr rfl
      exact ⟨a, m, hasynclet, hm, h.reads hlive⟩
    exact (yields_arrived h.base (.inr (by decide)) (.inl hdelivers) (.inr (by decide))
      (.inr (by decide))).bind fun _ _ => yields_pure trivial
  | close => exact yields_ok trivial

theorem Intact.deleted {t1 : Tree} {s : Server} (h : Intact env t) (hd : Deleting t i t1 requests)
    (hg : Discarded t1 t' i) (hs : t.server i = some s) (hspares : Spares t false i s) :
    Intact env t' := by
  have hbase : Base env t' := by
    obtain ⟨hbase, hdeletable⟩ := hd.base h.base
    exact hbase.gone hg.toGone hdeletable
  have htype := typeOf_of_server hs
  cases hd with
  | feed hf _ hjoins =>
    obtain rfl := some.inj (hf.symm.trans hs)
    have hempty : t.joins i = [] := (joins_of_server hs).trans hspares
    cases hjoins with
    | next hcons =>
      rw [hempty] at hcons
      cases hcons
    | done =>
      have hkind : ∀ x, t.kind i ≠ some (.join x) := fun x => by
        rw [kind_of_server hs]
        nofun
      exact ⟨hbase, h.joins.gone hg.toGone hempty hkind, h.family.discarded hg htype ⟨nofun, nofun⟩,
        h.waiting.calm (hg.toGone.calm (core_of_server hs))⟩
  | pipe hp =>
    obtain rfl := some.inj (hp.symm.trans hs)
    exact hspares.elim
  | @join x _ hx _ hunlisted =>
    obtain rfl := some.inj (hx.symm.trans hs)
    obtain ⟨pp, fp, hlost⟩ := h.joins.joinLost hs hunlisted hg.toGone
    have hfirst := hspares.2 i x pp hlost.join (.inl rfl) hlost.joining.pipePath
    have hsame := sameFamily_of_bare hunlisted.bare hunlisted.sameShape
    refine ⟨hbase, h.joins.unjoined hlost hfirst,
      (h.family.same hsame).discarded hg ((hsame.typeOf i).trans htype) ⟨nofun, nofun⟩,
      (h.waiting.calm hunlisted.calm).calm (hg.toGone.calm ?_)⟩
    rw [hunlisted.calm.core, core_of_server hs]
    rfl
  | @message m hm =>
    obtain rfl := some.inj (hm.symm.trans hs)
    exact ⟨hbase, h.joins.still (hg.toGone.still (kind_of_server hs)),
      h.family.discarded hg htype ⟨nofun, nofun⟩, h.waiting.gone hg.toGone hs (hspares rfl)⟩
  | content hx =>
    obtain rfl := some.inj (hx.symm.trans hs)
    exact ⟨hbase, h.joins.still (hg.toGone.still (kind_of_server hs)),
      h.family.discarded hg htype ⟨nofun, nofun⟩,
      h.waiting.calm (hg.toGone.calm (core_of_server hs))⟩

theorem Intact.retained {t1 : Tree} {s : Server} (h : Intact env t)
    (hd : Deleting t i t1 requests) (hs : t.server i = some s) (hspares : Spares t true i s) :
    Intact env t1 := by
  cases hd with
  | feed hf _ hjoins =>
    obtain rfl := some.inj (hf.symm.trans hs)
    have hempty : t.joins i = [] := (joins_of_server hs).trans hspares
    cases hjoins with
    | next hcons =>
      rw [hempty] at hcons
      cases hcons
    | done => exact h
  | pipe hp =>
    obtain rfl := some.inj (hp.symm.trans hs)
    exact hspares.elim
  | join hx =>
    obtain rfl := some.inj (hx.symm.trans hs)
    cases hspares.1
  | message | content => exact h

theorem Intact.handled {c : ContextId} {w w' : Work} (h : Intact env w.tree)
    (hk : RequestKeeps w.tree request) (hh : Handled env c w request w') : Intact env w'.tree := by
  have hbase := h.base.handled hh
  cases hh with
  | answered _ huntouched _ => exact huntouched.1 ▸ h
  | get _ _ hget =>
    obtain ⟨r, _, ⟨_, huntouched, _⟩ | ⟨_, ⟨_, huntouched, _⟩ | ⟨_, _, _, hheld⟩⟩⟩ := hget
    · exact huntouched.1 ▸ h
    · exact huntouched.1 ▸ h
    · exact ⟨hbase, h.joins.still hheld.still, h.family.same hheld.sameFamily,
        h.waiting.heldAt hheld⟩
  | put _ _ hput =>
    have htitle := hput.2.2
    exact ⟨hbase, h.joins.still htitle.still, h.family.same htitle.sameFamily,
      h.waiting.calm htitle.calm⟩
  | @delete i hmethod htarget hdelete =>
    rcases hdelete with ⟨_, huntouched, _⟩ | ⟨hnot, t1, requests, hdeleting, _, hend⟩
    · exact huntouched.1 ▸ h
    obtain ⟨s, hs⟩ := live_iff_server.mp (h.base.table.live htarget.2)
    have hspares := hk.delete hmethod i s htarget hnot hdeleting.not_lasts hs
    rcases hend with ⟨hfailed, _, htree⟩ | ⟨hfailed, _, hd⟩
    · rw [hfailed] at hspares
      exact htree ▸ h.retained hdeleting hs hspares
    · rw [hfailed] at hspares
      exact h.deleted hdeleting hd hs hspares
  | post _ _ hpost =>
    obtain ⟨_, requests, hposted, _⟩ := hpost
    exact ⟨hbase, h.joins.posted h.base hposted, h.family.posted h.base hposted,
      h.waiting.posted h.base.fresh hposted⟩

theorem Intact.stepped {s : State} {e : Event} {out : Outcome} (h : Intact env s.tree)
    (hk : Keeps s e) (hs : Stepped env s e out) : Intact env out.state.tree := by
  cases hs with
  | request hhandled => exact Intact.handled (w := s.work _) h hk hhandled
  | deliver harrived =>
    cases harrived with
    | undeliverable => exact h
    | message _ ha _ =>
      obtain ⟨a', hrefilled⟩ := ha.refilled
      exact ⟨h.base.messageArrived ha, h.joins.still ha.still, h.family.messageArrived h.base ha,
        h.waiting.refilled h.base.fresh hrefilled⟩
  | close => exact h

/-! ## Runs -/

theorem new_parent (i : ResourceId) : (Tree.new now).parent i =
    if i = defaultFeedId then some domainId else none := by
  rw [Tree.parent]
  show bind (if i = domainId then _ else if i = defaultFeedId then _ else none) _ = _
  split
  · next hi =>
    rw [hi]
    rfl
  · split <;> rfl

theorem new_children (i : ResourceId) : (Tree.new now).children i =
    if i = domainId then [defaultFeedId] else [] := by
  rw [Tree.children]
  show (Option.map _ (if i = domainId then _ else if i = defaultFeedId then _ else none)).getD _ = _
  split
  · rfl
  · split <;> rfl

theorem intact_new : Intact env (Tree.new now) := by
  have hcore : ∀ i, (Tree.new now).core i = none := by
    intro i
    rw [Tree.core, new_server]
    split
    · rfl
    · split <;> rfl
  refine ⟨base_new now, joinsOk_new now, ⟨fun p c hc => ?_, fun p => ?_, fun c p hc => ?_,
    fun c p x hc hx => ?_⟩, ⟨fun p o hp => ?_, fun a p ha => ?_⟩⟩
  · rw [new_children] at hc
    split at hc
    · next hp => rw [mem_singleton.mp hc, hp, new_parent, if_pos rfl]
    · cases hc
  · rw [new_children]
    split
    · exact nodup_singleton _
    · exact nodup_nil
  · rw [new_parent] at hc
    split at hc
    · rw [← some.inj hc]
      exact Nat.zero_lt_two
    · cases hc
  · rw [new_parent] at hc
    split at hc
    · next hci =>
      rw [hci] at hx
      rw [← some.inj hc]
      refine .inl ⟨.domain, rfl, ?_⟩
      obtain rfl : ResourceType.feed = x := some.inj hx
      trivial
    · cases hc
  · rw [hcore] at hp
    cases hp
  · exact absurd (hcore a) ha.core_ne

/--
Any requests and deliveries on a new server.

As long as every step meets its condition, the table and all references are as they should be in
the end, and none of the steps uses a resource that has been destroyed.
-/
theorem graph_intact {now : Nat} {es : List Event} (h : Along (next env) Keeps (State.new now) es) :
    (∀ s, run (next env) (State.new now) es = some s → Whole s.tree) ∧
      Along (next env) (fun s e => step env s e ≠ .error .destroyed) (State.new now) es := by
  have hkeeps : ∀ s e s', Intact env s.tree → Keeps s e → next env s e = some s' →
      Intact env s'.tree := by
    intro s e s' hs hk hnext
    obtain ⟨out, hout, rfl⟩ := next_eq_some.mp hnext
    exact hs.stepped hk (step_ok hs.base hout)
  have hsafe : ∀ s e, Intact env s.tree → Keeps s e → step env s e ≠ .error .destroyed :=
    fun s e hs hk heq => (yields_step hs hk).of_error heq rfl
  constructor
  · exact fun s hrun => (run_invariant (I := fun s => Intact env s.tree) hkeeps
      (intact_new now) h hrun).whole
  · exact along_of_invariant (I := fun s => Intact env s.tree) hsafe hkeeps (intact_new now) h

def pipeAsked : Event :=
  .request (sampleRequest .post "/domain/default" [sampleElement "pipe" []])

theorem graph_intact_pipe :
    (∀ s, run (next sampleEnv) (State.new 0) [pipeAsked] = some s → Whole s.tree) ∧
      Along (next sampleEnv) (fun s e => step sampleEnv s e ≠ .error .destroyed) (State.new 0)
        [pipeAsked] := by
  have hkeeps : Keeps (State.new 0) pipeAsked := by
    refine ⟨nofun, fun _ i f hi hf => ?_⟩
    obtain rfl : 0 = i := some.inj hi.2
    cases hf
  exact graph_intact ⟨hkeeps, fun _ _ => trivial⟩

/-- A pipe, a feed and a join of both are created, and the feed is deleted. -/
def joinedFeedDeleted : List Event := [pipeAsked,
  .request (sampleRequest .post "/domain/default" [sampleElement "feed" [("name", "orders")]]),
  .request (sampleRequest .post "/resource/ZYRE-AAAAAAAA-11"
    [sampleElement "join" [("feed", "http://h/restms/feed/orders")]]),
  .request (sampleRequest .delete "/feed/orders" [])]

/-- Then the document of the pipe mentions the join, which has been destroyed. -/
theorem joined_feed_deleted_fails : ∃ s,
    run (next sampleEnv) (State.new 0) joinedFeedDeleted = some s ∧ step sampleEnv s
      (.request (sampleRequest .get "/resource/ZYRE-AAAAAAAA-11" [])) = .error .destroyed := by
  have hfault : (run (next sampleEnv) (State.new 0) joinedFeedDeleted).map (fun s =>
      match step sampleEnv s (.request (sampleRequest .get "/resource/ZYRE-AAAAAAAA-11" [])) with
      | .ok _ => none
      | .error e => some e) = some (some Fault.destroyed) := by
    decide +kernel
  obtain ⟨s, hrun, hs⟩ := map_eq_some_iff.mp hfault
  refine ⟨s, hrun, ?_⟩
  split at hs
  · cases hs
  · next e he =>
    rw [he, some.inj hs]

end OpenAmq.Zyre
