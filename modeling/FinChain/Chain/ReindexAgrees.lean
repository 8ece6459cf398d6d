import FinChain.Chain.Restart

/-!
# The reindexed node and the live node

A node that was live has applied the blocks of its chain one after the other as they came, with all
checks. A node that is reindexed applies the same blocks from the file, without most of them. The
checks that are left out have all been passed before, so the reindexed node gets through
(`follows_applyBlockWith`). It does not get to the same state: with the check for duplicates it also
skips the entry in the transaction index. So every transaction of the chain is unknown to it, and one
that has not expired is accepted a second time (`not_reindex_agrees`).

What else differs is out of sight of the objects: the reindexed node knows of no other branches and has
no undo history, so a block that does not build on the head is unlinkable for it; and while it was
replaying, a claim of a balance inside a proposal was not checked for its owner.

`reindex_agrees` says that there is nothing more. If all transactions of the chain have expired, and none
of them proposes such a claim, then from there on both nodes accept the same transactions and the same
blocks on the head.
-/

namespace FinChain.Chain

open Exec

variable {Op R : Type}

/-- The objects as they are without the transaction index. -/
def Objects.forget (o : Objects R) : Objects R := { o with transactions := [] }

/-- Only the block logic itself looks at the transaction index. -/
structure IndexUnread {P : Protocol Op R} (C : Checks P) : Prop where
  knownWitness : ∀ o b, C.knownWitness o.forget b = C.knownWitness o b
  evaluate : ∀ skip o trx, C.evaluate skip o.forget trx = C.evaluate skip o trx
  countSlots : ∀ o b, P.countSlots o.forget b = P.countSlots o b
  paySigningWitness : ∀ o b, P.paySigningWitness o.forget b = P.paySigningWitness o b
  beginMaintenance : ∀ o, P.beginMaintenance o.forget = P.beginMaintenance o
  nextAvailableVoteId : ∀ o, P.nextAvailableVoteId o.forget = P.nextAvailableVoteId o
  maximumWitnessCount : ∀ o, P.maximumWitnessCount o.forget = P.maximumWitnessCount o
  maximumCommitteeCount : ∀ o, P.maximumCommitteeCount o.forget = P.maximumCommitteeCount o
  accounts : ∀ o, P.accounts o.forget = P.accounts o
  vote : ∀ o account, P.vote o.forget account = P.vote o account
  processFees : ∀ o account, P.processFees o.forget account = P.processFees o account
  endMaintenance : ∀ o v b, P.endMaintenance o.forget v b = P.endMaintenance o v b
  endOfBlock : ∀ skip o b, C.endOfBlock skip o.forget b = C.endOfBlock skip o b

/-- Where the evaluators look at the flags. A claim of a balance leaves out a check when they are set,
so what passes with the check passes without it. Only a proposal can go on after a claim in it has
failed. `clean` says that there is no such proposal among the objects, and `proposesClaim` that a
transaction makes one. -/
structure FlagsRead {P : Protocol Op R} (C : Checks P) (proposesClaim : Transaction Op → Prop)
    (clean : R → Prop) : Prop where
  evaluate : ∀ {o trx r}, clean o.rest → ¬ proposesClaim trx → C.evaluate .nothing o trx = some r →
    C.evaluate .reindex o trx = some r ∧ clean r
  endOfBlock : ∀ {o b r}, clean o.rest → C.endOfBlock .nothing o b = some r →
    C.endOfBlock .reindex o b = some r ∧ clean r
  countSlots : ∀ {o} b, clean o.rest → clean (P.countSlots o b)
  paySigningWitness : ∀ {o b r}, clean o.rest → P.paySigningWitness o b = some r → clean r
  beginMaintenance : ∀ {o r}, clean o.rest → P.beginMaintenance o = some r → clean r
  processFees : ∀ {o account r}, clean o.rest → P.processFees o account = some r → clean r
  endMaintenance : ∀ {o v b r}, clean o.rest → P.endMaintenance o v b = some r → clean r.rest

namespace Database

variable {P : Protocol Op R} {C : Checks P} {proposesClaim : Transaction Op → Prop} {clean : R → Prop}

/-! ### Following a block -/

/-- The second database has the objects of the first, but no transaction index. -/
structure Behind (clean : R → Prop) (s t : Database Op R) : Prop where
  objects : t.objects = s.objects.forget
  buffers : t.buffers = s.buffers
  clean : clean s.objects.rest

theorem follows_modifyObjects {f f' : Objects R → Objects R}
    (h : ∀ o, clean o.rest → f' o.forget = (f o).forget ∧ clean (f o).rest) :
    Follows (Behind clean) (modifyObjects f : DatabaseM Op R Unit) (modifyObjects f') := by
  refine follows_update fun s t hst => ⟨?_, hst.buffers, (h s.objects hst.clean).2⟩
  change f' t.objects = (f s.objects).forget
  rw [hst.objects]
  exact (h s.objects hst.clean).1

theorem follows_modifyRest {f f' : Objects R → Option R}
    (h : ∀ {o r}, clean o.rest → f o = some r → f' o.forget = some r ∧ clean r) :
    Follows (Behind clean) (modifyRest f : DatabaseM Op R Unit) (modifyRest f') := by
  refine follows_get_bind fun s t hst => ?_
  cases hr : f s.objects with
  | none => exact follows_throw _ _
  | some r =>
    obtain ⟨hr', hclean⟩ := h hst.clean hr
    rw [hst.objects, hr']
    exact follows_modifyObjects fun o _ => ⟨rfl, hclean⟩

section Block

variable (hidx : IndexUnread C) (hflags : FlagsRead C proposesClaim clean)
include hidx hflags

/-- A transaction that passes all checks passes those that are left. -/
theorem follows_applyTransactionWith {trx : Transaction Op} (htrx : ¬ proposesClaim trx) :
    Follows (Behind clean) (applyTransactionWith C .nothing trx)
      (applyTransactionWith C .reindex trx) := by
  refine follows_get_bind fun s t hst => ?_
  have htime : notExpired s.objects trx → notExpired t.objects trx := by
    rw [hst.objects]
    exact id
  refine follows_bind (follows_assert _ id) fun _ => ?_
  refine follows_bind (follows_assert _ fun _ => .inl rfl) fun _ => ?_
  refine follows_bind (follows_assert _ fun _ => .inl rfl) fun _ => ?_
  refine follows_bind (follows_assert _ fun _ _ => .inl rfl) fun _ => ?_
  refine follows_bind (follows_assert _ htime) fun _ => ?_
  -- only the live node puts the transaction into the index
  have hcreate : Follows (Behind clean) (createTransactionObject P .nothing trx)
      (createTransactionObject P .reindex trx) := by
    intro s t hst u s' hrun
    unfold createTransactionObject modifyObjects at hrun
    rw [if_neg (by decide)] at hrun
    obtain rfl := update_eq_ok.mp hrun
    exact ⟨t, rfl, hst.objects, hst.buffers, hst.clean⟩
  refine follows_bind hcreate fun _ => follows_modifyRest fun hclean hr => ?_
  rw [hidx.evaluate]
  exact hflags.evaluate hclean htrx hr

theorem follows_performChainMaintenance (b : SignedBlock Op) :
    Follows (Behind clean) (performChainMaintenance P b) (performChainMaintenance P b) := by
  have hclear : Follows (Behind clean) (clearBuffers : DatabaseM Op R Unit) clearBuffers := by
    refine follows_update fun s t hst => ⟨hst.objects, ?_, hst.clean⟩
    rw [hst.buffers]
  have htally : ∀ account, Follows (Behind clean) (tallyAccount P account) (tallyAccount P account) := by
    intro account
    refine follows_get_bind fun s t hst => ?_
    rw [hst.objects, hidx.vote]
    cases P.vote s.objects account with
    | none => exact follows_throw _ _
    | some vote =>
      refine follows_update fun s t hst => ⟨hst.objects, ?_, hst.clean⟩
      change tallyVote P t.objects vote t.buffers = tallyVote P s.objects vote s.buffers
      unfold tallyVote
      rw [hst.objects, hst.buffers, hidx.maximumWitnessCount, hidx.maximumCommitteeCount]
  have haccount : ∀ account, Follows (Behind clean) (maintainAccount P account)
      (maintainAccount P account) := by
    refine fun account => follows_bind (htally account) fun _ => follows_modifyRest fun hclean hr => ?_
    rw [hidx.processFees]
    exact ⟨hr, hflags.processFees hclean hr⟩
  have hfinish : Follows (Behind clean) (finishMaintenance P b) (finishMaintenance P b) := by
    refine follows_get_bind fun s t hst => ?_
    rw [hst.objects, hst.buffers, hidx.endMaintenance]
    cases hr : P.endMaintenance s.objects s.buffers b with
    | none => exact follows_throw _ _
    | some r => exact follows_modifyObjects fun o _ => ⟨rfl, hflags.endMaintenance hst.clean hr⟩
  refine follows_bind (follows_modifyRest fun hclean hr => ?_) fun _ => ?_
  · rw [hidx.beginMaintenance]
    exact ⟨hr, hflags.beginMaintenance hclean hr⟩
  refine follows_bind (follows_update fun s t hst => ⟨hst.objects, ?_, hst.clean⟩) fun _ => ?_
  · change resizeBuffers P t.objects t.buffers = resizeBuffers P s.objects s.buffers
    unfold resizeBuffers
    rw [hst.objects, hst.buffers, hidx.nextAvailableVoteId, hidx.maximumWitnessCount,
      hidx.maximumCommitteeCount]
  refine follows_get_bind fun s t hst => ?_
  rw [hst.objects, hidx.accounts]
  refine follows_bind (follows_forM fun account _ => haccount account) fun _ => ?_
  refine follows_bind (follows_tryCatch hfinish fun e s u s' hrun => ?_) fun _ => hclear
  obtain ⟨_, s₁, -, hthrow⟩ := bind_eq_ok.mp hrun
  cases hthrow

/-- **A block that passes all checks** passes those that are left, and does the same but for the
transaction index. -/
theorem follows_applyBlockWith {b : SignedBlock Op} (hb : ∀ trx ∈ b.transactions, ¬ proposesClaim trx) :
    Follows (Behind clean) (applyBlockWith C .none .nothing b)
      (applyBlockWith C .none .reindex b) := by
  refine follows_bind (follows_assert _ id) fun _ => ?_
  have hskip : ∀ skip, Checkpoints.none.skipAt skip b.blockNum = skip := fun _ => rfl
  rw [hskip, hskip]
  refine follows_bind (follows_assert _ ?_) fun _ => ?_
  · rintro (hskipped | hmerkle)
    · cases hskipped
    · exact .inr hmerkle
  have hheader : Follows (Behind clean) (validateBlockHeaderWith C .nothing b)
      (validateBlockHeaderWith C .reindex b) := by
    refine follows_get_bind fun s t hst => ?_
    rw [hst.objects, hidx.knownWitness]
    exact follows_bind (follows_assert _ id) fun _ => follows_bind (follows_assert _ id) fun _ =>
      follows_bind (follows_assert _ id) fun _ => follows_bind (follows_assert _ fun _ => .inl rfl)
        fun _ => follows_assert _ fun _ => .inl rfl
  have hglobal : Follows (Behind clean) (updateGlobalDynamicDataWith C .none .nothing b)
      (updateGlobalDynamicDataWith C .none .reindex b) := by
    refine follows_bind (follows_modifyObjects fun o hclean => ⟨?_, ?_⟩) fun _ =>
      follows_get_bind fun s t hst => ?_
    · have hcount : (if Checkpoints.none.reaches b.blockNum then C.countSlotsCaughtUp o.forget b
          else P.countSlots o.forget b) = P.countSlots o b := hidx.countSlots o b
      rw [hcount]
      rfl
    · exact hflags.countSlots b hclean
    · rw [hst.objects]
      refine follows_bind (follows_assert _ ?_) fun _ => follows_update fun s t hst =>
        ⟨hst.objects, hst.buffers, hst.clean⟩
      rintro (hskipped | hhistory)
      · cases hskipped
      · exact .inr hhistory
  have hsign : Follows (Behind clean) (updateSigningWitness P b) (updateSigningWitness P b) := by
    refine follows_bind (follows_modifyRest fun hclean hr => ?_) fun _ =>
      follows_modifyObjects fun o hclean => ⟨rfl, hclean⟩
    rw [hidx.paySigningWitness]
    exact ⟨hr, hflags.paySigningWitness hclean hr⟩
  have hraise : Follows (Behind clean) (updateLastIrreversibleBlockWith .none : DatabaseM Op R Unit)
      (updateLastIrreversibleBlockWith .none) := by
    refine follows_modifyObjects fun o hclean => ?_
    have hproposed : proposedBlockNum .none o.forget = proposedBlockNum .none o := rfl
    have hlast : o.forget.lastIrreversibleBlockNum = o.lastIrreversibleBlockNum := rfl
    rw [hproposed, hlast]
    by_cases hlt : o.lastIrreversibleBlockNum < proposedBlockNum .none o
    · rw [if_pos hlt, if_pos hlt]
      exact ⟨rfl, hclean⟩
    · rw [if_neg hlt, if_neg hlt]
      exact ⟨rfl, hclean⟩
  have hmaintain : ∀ n, Follows (Behind clean) (maintainIf n P b) (maintainIf n P b) := by
    intro n
    cases n with
    | true => exact follows_performChainMaintenance hidx hflags b
    | false => exact follows_pure ()
  refine follows_bind hheader fun _ => follows_get_bind fun s t hst => ?_
  rw [hst.objects]
  refine follows_bind (follows_forM fun trx htrx =>
    follows_applyTransactionWith hidx hflags (hb trx htrx)) fun _ => ?_
  refine follows_bind hglobal fun _ => follows_bind hsign fun _ => follows_bind hraise fun _ => ?_
  refine follows_bind ?_ fun _ => follows_bind ?_ fun _ => follows_modifyRest fun hclean hr => ?_
  · exact hmaintain (s.objects.nextMaintenanceTime ≤ b.timestamp)
  · exact follows_modifyObjects fun o hclean => ⟨rfl, hclean⟩
  · rw [hidx.endOfBlock]
    exact hflags.endOfBlock hclean hr

end Block

/-! ### The live node -/

/-- The databases of a node that has accepted the blocks of a chain one after the other. The blocks are
listed newest first. -/
inductive Grown (P : Protocol Op R) (g : Objects R) : List (SignedBlock Op) → Database Op R → Prop
  | genesis : Grown P g [] (genesis g)
  | block {bs b s s' r} : Grown P g bs s → b.previous = s.objects.headBlockId →
      pushBlock P b s = .ok r s' → Grown P g (b :: bs) s'

/-- The blocks have the numbers from one on. -/
def Numbered : List (SignedBlock Op) → Prop
  | [] => True
  | b :: bs => b.blockNum = bs.length + 1 ∧ Numbered bs

variable {g : Objects R} {bs : List (SignedBlock Op)} {s : Database Op R}

/-- What is known of a live node. -/
structure Live (P : Protocol Op R) (bs : List (SignedBlock Op)) (s : Database Op R) : Prop where
  extendable : Extendable P s
  headBlockNumber : s.objects.headBlockNumber = bs.length
  numbered : Numbered bs
  blockDb : s.blockDb = (BlockFile.ofBlocks P bs).db
  /-- The transactions in the index are of the chain and have not expired. -/
  transactions : ∀ e ∈ s.objects.transactions, s.objects.time ≤ e.2 ∧
    ∃ b ∈ bs, ∃ trx ∈ b.transactions, e = entry P trx

theorem Grown.live (hg : Genesis g) (h : Grown P g bs s) : Live P bs s := by
  induction h with
  | genesis =>
    refine ⟨.genesis hg, hg.headBlockNumber, trivial, rfl, fun e he => ?_⟩
    change e ∈ g.transactions at he
    rw [hg.transactions] at he
    cases he
  | @block bs b s s' r _ hb hpush ih =>
    obtain ⟨s₀, hobjects, -, hcases⟩ := ih.extendable.push hb
    rcases hcases with ⟨s₁, s'', happly, hrun, ho, -, hdb, hext⟩ | ⟨e, s₁, s'', -, hrun, -⟩
    · obtain ⟨⟩ := hpush.symm.trans hrun
      have happlied := applyBlock_ok happly
      have hnum := ih.extendable.blockNum hb
      rw [ih.headBlockNumber] at hnum
      rw [hobjects] at happlied
      refine ⟨hext, ?_, ⟨hnum, ih.numbered⟩, ?_, fun e he => ?_⟩
      · rw [ho, happlied.headBlockNumber, hnum]
        rfl
      · rw [hdb, ih.blockDb]
        rfl
      · rw [ho, happlied.transactions, List.mem_filter, List.mem_append, List.mem_reverse,
          decide_eq_true_eq] at he
        obtain ⟨hmem, htime⟩ := he
        refine ⟨?_, ?_⟩
        · rw [ho, happlied.time]
          exact htime
        · rcases hmem with hmem | hmem
          · obtain ⟨trx, htrx, rfl⟩ := List.mem_map.mp hmem
            exact ⟨b, List.mem_cons_self, trx, htrx, rfl⟩
          · obtain ⟨-, b', hb', hrest⟩ := ih.transactions e hmem
            exact ⟨b', List.mem_cons_of_mem b hb', hrest⟩
    · cases hpush.symm.trans hrun

/-! ### Replaying the chain -/

/-- The loop of `reindex` over blocks that are all there. -/
theorem replay_eq (C : Checks P) (checkpoints : Checkpoints) {F : BlockFile Op} :
    ∀ {l : List (SignedBlock Op)} {i : ℕ},
    (∀ k b, l[k]? = some b → F.fetchByNumber P (i + k) = some b) →
    replay C checkpoints F l.length i =
      (do l.forM (replayBlock C checkpoints); pure none : DatabaseM Op R (Option ℕ))
  | [], _, _ => rfl
  | b :: l, i, h => by
    have hrest := replay_eq C checkpoints (l := l) (i := i + 1) fun k b' hk => by
      rw [Nat.add_assoc, Nat.add_comm 1 k]
      exact h (k + 1) b' hk
    have hfirst : F.fetchByNumber P i = some b := h 0 b rfl
    rw [List.length_cons, replay, hfirst]
    change (replayBlock C checkpoints b >>= fun _ => replay C checkpoints F l.length (i + 1)) = _
    rw [hrest]
    change _ = (replayBlock C checkpoints b >>= fun _ => l.forM (replayBlock C checkpoints)) >>=
      fun _ => pure none
    rw [bind_assoc]

theorem fetchByNumber_ofBlocks : ∀ {bs : List (SignedBlock Op)}, Numbered bs → ∀ k b,
    bs.reverse[k]? = some b → (BlockFile.ofBlocks P bs).fetchByNumber P (1 + k) = some b
  | [], _, k, b, hk => by cases hk
  | c :: bs, hnum, k, b, hk => by
    have hstore : (BlockFile.ofBlocks P (c :: bs)).fetchByNumber P (1 + k) =
        if 1 + k = c.blockNum then some c else (BlockFile.ofBlocks P bs).fetchByNumber P (1 + k) :=
      BlockFile.fetchByNumber_store P c (1 + k)
    rw [hstore, hnum.1]
    rw [List.reverse_cons, List.getElem?_append, List.length_reverse] at hk
    by_cases hlt : k < bs.length
    · rw [if_pos hlt] at hk
      rw [if_neg (by omega)]
      exact fetchByNumber_ofBlocks hnum.2 k b hk
    · rw [if_neg hlt] at hk
      have hzero : k - bs.length = 0 := by
        by_contra hne
        rw [List.getElem?_eq_none (by rw [List.length_singleton]; omega)] at hk
        cases hk
      rw [hzero] at hk
      rw [if_pos (by omega)]
      exact hk

theorem last_ofBlocks {b : SignedBlock Op} (hnum : Numbered (b :: bs)) :
    (BlockFile.ofBlocks P (b :: bs)).last = some b := by
  have hused : ∀ {bs : List (SignedBlock Op)} {n : ℕ}, Numbered bs →
      (BlockFile.ofBlocks P bs).used n = true → n ≤ bs.length := by
    intro bs
    induction bs with
    | nil =>
      intro n _ hn
      cases hn
    | cons c bs ih =>
      intro n hnum hn
      rw [List.length_cons]
      rcases (BlockFile.used_store P c n).mp hn with rfl | hn
      · exact hnum.1.le
      · exact (ih hnum.2 hn).trans (Nat.le_succ _)
  have hentry : (BlockFile.ofBlocks P (b :: bs)).lastEntry = some b.blockNum := by
    refine BlockFile.lastEntry_eq_some ((BlockFile.used_store P b _).mpr (.inl rfl)) fun m hm => ?_
    by_contra hm'
    have hle := hused hnum (Bool.not_eq_false _ ▸ hm')
    rw [List.length_cons] at hle
    have heq := hnum.1
    omega
  have hread : (BlockFile.ofBlocks P (b :: bs)).read b.blockNum = some b := by
    have hstore : (BlockFile.ofBlocks P (b :: bs)).read b.blockNum = _ :=
      BlockFile.read_store P b b.blockNum
    rw [hstore, if_pos rfl]
  unfold BlockFile.last
  rw [hentry]
  exact hread

section Replay

variable (hidx : IndexUnread C) (hflags : FlagsRead C proposesClaim clean)
include hidx hflags

/-- **The blocks of a live node** can be replayed, and lead to its objects without the transaction
index. -/
theorem Grown.replayed (hg : Genesis g) (h : Grown P g bs s)
    (hclaims : ∀ b ∈ bs, ∀ trx ∈ b.transactions, ¬ proposesClaim trx) {t₀ : Database Op R}
    (ht₀ : Behind clean (Database.genesis g) t₀) :
    ∃ t, bs.reverse.forM (replayBlock C .none) t₀ = .ok ⟨⟩ t ∧ Behind clean s t := by
  induction h with
  | genesis => exact ⟨t₀, rfl, ht₀⟩
  | @block bs b s s' r hgrown hb hpush ih =>
    obtain ⟨t, hreplay, ht⟩ := ih fun b' hb' => hclaims b' (List.mem_cons_of_mem b hb')
    obtain ⟨s₀, hobjects, hbuffers, hcases⟩ := (hgrown.live hg).extendable.push hb
    rcases hcases with ⟨s₁, s'', happly, hrun, ho, hv, -⟩ | ⟨e, s₁, s'', -, hrun, -⟩
    · obtain ⟨⟩ := hpush.symm.trans hrun
      have ht' : Behind clean s₀ t := by
        refine ⟨?_, ?_, ?_⟩
        · rw [hobjects]
          exact ht.objects
        · rw [hbuffers]
          exact ht.buffers
        · rw [hobjects]
          exact ht.clean
      rw [← applyBlockWith_nothing C] at happly
      obtain ⟨t₁, happly', ht₁⟩ := follows_applyBlockWith hidx hflags
        (hclaims b List.mem_cons_self) s₀ t ht' () s₁ happly
      have hblock : replayBlock C .none b t =
          .ok () { t₁ with chain := (b, t.objects) :: t₁.chain } := by
        unfold replayBlock
        rw [get_bind, bind_apply, happly']
        rfl
      refine ⟨{ t₁ with chain := (b, t.objects) :: t₁.chain }, ?_, ?_⟩
      · have happend : (b :: bs).reverse.forM (replayBlock C .none) = (do
            bs.reverse.forM (replayBlock C .none)
            [b].forM (replayBlock C .none)) := by
          rw [List.reverse_cons]
          exact List.forM_append
        rw [happend, bind_apply, hreplay]
        change (replayBlock C .none b >>= fun _ => (pure ⟨⟩ : DatabaseM Op R PUnit)) t = _
        rw [bind_apply, hblock]
        rfl
      · refine ⟨?_, ?_, ?_⟩
        · rw [ho]
          exact ht₁.objects
        · rw [hv]
          exact ht₁.buffers
        · rw [ho]
          exact ht₁.clean
    · cases hpush.symm.trans hrun

theorem Grown.reindexed (hg : Genesis g) (hclean : clean g.rest) (h : Grown P g bs s)
    (hclaims : ∀ b ∈ bs, ∀ trx ∈ b.transactions, ¬ proposesClaim trx) :
    ∃ t, reindex C .none g 0 (.ofBlocks P bs) = .ok (t, .ofBlocks P bs) ∧ Behind clean s t ∧
      Extendable P t := by
  have hopened : (BlockFile.ofBlocks P bs).opened P 0 = .ok (.ofBlocks P bs) := by
    unfold BlockFile.opened
    exact if_neg fun hand => hand.1 rfl
  have hforget : g.forget = g := by
    unfold Objects.forget
    rw [← hg.transactions]
  have hbehind : Behind clean (Database.genesis g) (openDatabase P g (.ofBlocks P bs)) :=
    ⟨hforget.symm, rfl, hclean⟩
  obtain ⟨t, hreplay, ht⟩ := h.replayed hidx hflags hg hclaims hbehind
  have hlive := h.live hg
  cases bs with
  | nil =>
    have hlast : (BlockFile.ofBlocks P []).last = none := rfl
    obtain ⟨-, rfl⟩ := pure_eq_ok.mp hreplay
    exact ⟨_, rfl, ht, extendable_openDatabase hg hlast⟩
  | cons b bs =>
    have hlast := last_ofBlocks (P := P) hlive.numbered
    have hrun : replay C .none (.ofBlocks P (b :: bs)) b.blockNum 1
        (openDatabase P g (.ofBlocks P (b :: bs))) = .ok none t := by
      have hcount := replay_eq C .none (fetchByNumber_ofBlocks (P := P) hlive.numbered)
      rw [List.length_reverse, List.length_cons, ← hlive.numbered.1] at hcount
      rw [hcount, bind_apply, hreplay]
      rfl
    refine ⟨t, ?_, ht, ?_⟩
    · unfold reindex
      rw [hopened]
      simp only [bind, Except.bind, hlast, hrun]
    · -- the fork database holds the last block
      rcases replay_ok (.genesis hg) hrun with ⟨-, hdone⟩ | ⟨k, hk, -⟩
      · rw [Nat.zero_add] at hdone
        have hfetch := fetchByNumber_ofBlocks (P := P) hlive.numbered bs.length b (by
          rw [List.reverse_cons, List.getElem?_append, List.length_reverse,
            if_neg (lt_irrefl _), Nat.sub_self]
          rfl)
        rw [Nat.add_comm, ← hlive.numbered.1] at hfetch
        exact hdone.extendable hlast rfl (BlockFile.fetchByNumber_eq_some.mp hfetch).2.2
      · cases hk

end Replay

/-! ### Both nodes -/

theorem related_applyTransactions (trxs : List (Transaction Op)) :
    Related SameVotes (trxs.forM (applyTransaction P)) (trxs.forM (applyTransaction P)) :=
  related_forM (fun trx => view_sameVotes.related_applyTransaction trx) trxs

theorem thrown_of_sameEnd {α : Type} {V : Database Op R → Database Op R → Prop}
    {x y : DatabaseM Op R α} {s t : Database Op R} (h : SameEnd V (x s) (y t)) :
    thrown x s = thrown y t := by
  unfold thrown
  cases hrun : x s with
  | ok a s' =>
    obtain ⟨t', hrun', -⟩ := (hrun ▸ h).of_ok
    rw [hrun']
  | error e s' =>
    obtain ⟨t', hrun', -⟩ := (hrun ▸ h).of_error
    rw [hrun']

/-- **The reindexed node agrees with the live node.** Let all transactions of the chain have expired, and
none of them propose a claim. Then replaying the chain ends, in the same objects; and after any further
blocks, each on the head as it is then, both nodes accept the same next block on the head and the same
transactions. -/
theorem reindex_agrees (hg : Genesis g) (hidx : IndexUnread C)
    (hflags : FlagsRead C proposesClaim clean) (hclean : clean g.rest) (hlive : Grown P g bs s)
    (hclaims : ∀ b ∈ bs, ∀ trx ∈ b.transactions, ¬ proposesClaim trx)
    (hexpired : ∀ b ∈ bs, ∀ trx ∈ b.transactions, trx.expiration < s.objects.time) :
    s.blockDb = (BlockFile.ofBlocks P bs).db ∧
    ∃ t, reindex C .none g 0 (.ofBlocks P bs) = .ok (t, .ofBlocks P bs) ∧ t.objects = s.objects ∧
      ∀ later, OnHead P later s →
        (∀ b, b.previous = (pushAll P s later).objects.headBlockId →
          SameOutcome P b (pushAll P s later) (pushAll P t later)) ∧
        ∀ trxs : List (Transaction Op),
          thrown (trxs.forM (applyTransaction P)) (pushAll P s later) =
            thrown (trxs.forM (applyTransaction P)) (pushAll P t later) := by
  have hinv := hlive.live hg
  obtain ⟨t, hreindex, hbehind, hext⟩ := hlive.reindexed hidx hflags hg hclean hclaims
  have hindex : s.objects.transactions = [] := by
    refine List.eq_nil_iff_forall_not_mem.mpr fun e he => ?_
    obtain ⟨htime, b, hb, trx, htrx, rfl⟩ := hinv.transactions e he
    have hlt := hexpired b hb trx htrx
    change s.objects.time ≤ trx.expiration at htime
    omega
  have hobjects : t.objects = s.objects := by
    rw [hbehind.objects, Objects.forget, ← hindex]
  have hsame : SameVotes s t := by
    refine ⟨hobjects.symm, ?_⟩
    rw [hbehind.buffers]
    exact .refl _
  refine ⟨hinv.blockDb, t, hreindex, hobjects, fun later hlater => ?_⟩
  obtain ⟨hs, ht, hst⟩ := sameVotes_pushAll hinv.extendable hext hsame hlater
  refine ⟨fun b hb => ?_, fun trxs => thrown_of_sameEnd (related_applyTransactions trxs _ _ hst)⟩
  have hend := (sameEnd_pushBlock hs ht hst hb).1
  refine ⟨?_, ?_⟩
  · rw [thrown_of_sameEnd hend]
  · cases hrun : pushBlock P b (pushAll P s later) with
    | ok r s' =>
      obtain ⟨t', hrun', hend'⟩ := (hrun ▸ hend).of_ok
      rw [final_of_ok hrun, final_of_ok hrun']
      exact hend'.1
    | error e s' =>
      obtain ⟨t', hrun', hend'⟩ := (hrun ▸ hend).of_error
      rw [final_of_error hrun, final_of_error hrun']
      exact hend'.1

section Example

private def payment : Transaction ℕ where
  refBlockNum := 0
  refBlockPrefix := 0
  expiration := 10
  operations := [1]
  signatures := []

private def firstBlock : SignedBlock ℕ :=
  { SignedBlock.empty .zero 5 1 with transactionMerkleRoot := 1, transactions := [payment] }

/-- A block after the payment has expired. -/
private def lateBlock : SignedBlock ℕ := .empty (Protocol.permissive.blockId firstBlock) 20 1

private def start : Objects Unit := Protocol.permissiveGenesis [0]

private def liveOne : Database ℕ Unit := final (pushBlock .permissive firstBlock) (genesis start)
private def liveTwo : Database ℕ Unit := final (pushBlock .permissive lateBlock) liveOne

private theorem grownOne : Grown .permissive start [firstBlock] liveOne :=
  .block .genesis (by decide) (ok_final_of_run' (a := false) (by decide))

private theorem grownTwo : Grown .permissive start [lateBlock, firstBlock] liveTwo :=
  .block grownOne (by decide) (ok_final_of_run' (a := false) (by decide))

private theorem indexUnread_permissive : IndexUnread Checks.permissive where
  knownWitness _ _ := rfl
  evaluate _ _ _ := rfl
  countSlots _ _ := rfl
  paySigningWitness _ _ := rfl
  beginMaintenance _ := rfl
  nextAvailableVoteId _ := rfl
  maximumWitnessCount _ := rfl
  maximumCommitteeCount _ := rfl
  accounts _ := rfl
  vote _ _ := rfl
  processFees _ _ := rfl
  endMaintenance _ _ _ := rfl
  endOfBlock _ _ _ := rfl

private theorem flagsRead_permissive :
    FlagsRead Checks.permissive (fun _ => False) fun _ => True where
  evaluate _ _ h := ⟨h, trivial⟩
  endOfBlock _ h := ⟨h, trivial⟩
  countSlots _ _ := trivial
  paySigningWitness _ _ := trivial
  beginMaintenance _ _ := trivial
  processFees _ _ := trivial
  endMaintenance _ _ := trivial

/-- Two blocks, and the payment in the first has expired: both nodes refuse it. -/
theorem reindex_agrees_two :
    ∃ t F, reindex .permissive .none start 0 (.ofBlocks .permissive [lateBlock, firstBlock]) = .ok (t, F) ∧
      thrown ([payment].forM (applyTransaction .permissive)) liveTwo = some .assertion ∧
      thrown ([payment].forM (applyTransaction .permissive)) t = some .assertion := by
  have hexpired : ∀ b ∈ [lateBlock, firstBlock], ∀ trx ∈ b.transactions,
      trx.expiration < liveTwo.objects.time := by decide +kernel
  obtain ⟨-, t, hrun, -, hagree⟩ := reindex_agrees (C := .permissive) ⟨rfl, rfl, rfl⟩
    indexUnread_permissive flagsRead_permissive trivial grownTwo (fun _ _ _ _ h => h) hexpired
  have hlive : thrown ([payment].forM (applyTransaction .permissive)) liveTwo = some .assertion := by
    decide +kernel
  exact ⟨t, _, hrun, hlive, ((hagree [] trivial).2 [payment]).symm.trans hlive⟩

/-- **A transaction that has not expired**: the live node knows it, the reindexed node accepts it
again. -/
theorem not_reindex_agrees : Grown .permissive start [firstBlock] liveOne ∧
    ∃ t F, reindex .permissive .none start 0 (.ofBlocks .permissive [firstBlock]) = .ok (t, F) ∧
      thrown (applyTransaction .permissive payment) liveOne = some .assertion ∧
      thrown (applyTransaction .permissive payment) t = none := by
  refine ⟨grownOne, ?_⟩
  have hall : (reindex .permissive .none start 0 (.ofBlocks .permissive [firstBlock])).toOption.map
      (fun r => thrown (applyTransaction .permissive payment) r.1) = some none := by decide +kernel
  cases hrun : reindex .permissive .none start 0 (.ofBlocks .permissive [firstBlock]) with
  | error e =>
    rw [hrun] at hall
    cases hall
  | ok r =>
    rw [hrun] at hall
    exact ⟨r.1, r.2, rfl, by decide +kernel, Option.some.inj hall⟩

end Example

end Database

end FinChain.Chain
