import WorkerdQueue.LedgerOrder

/-! What a handler's calls mean, read off the history alone. The first batch-level
call decides the batch. The first call that settles a message, a batch-level call
or a call on that message, decides whether it is acked. An `ackAll` that takes
effect freezes the ledger, so only the calls before it can land, and a retried
message carries the delay of the last retry that landed. The ledger the code
builds call by call is, in everything it reports, exactly this. -/

namespace WorkerdQueue

/-- Everything a ledger reports: the two batch flags, the batch delay, whether each
message is acked and the retry entry of each message. -/
@[ext] structure LedgerView where
  ackAll : Bool
  retryAll : Bool
  batchDelay : Option CInt
  acked : String → Bool
  retried : String → Option QueueRetryDelay

def QueueEventResult.view (s : QueueEventResult) : LedgerView :=
  ⟨s.ackAll, s.retryBatch.retry, s.retryBatch.delaySeconds, fun x => decide (x ∈ s.explicitAcks.ids),
    s.retries.find⟩

theorem ledgerEquiv_iff_view_eq {s t : QueueEventResult} : LedgerEquiv s t ↔ s.view = t.view := by
  constructor
  · intro h
    exact LedgerView.ext h.ackAll (congrArg QueueRetryBatch.retry h.retryBatch)
      (congrArg QueueRetryBatch.delaySeconds h.retryBatch)
      (funext fun x => decide_eq_decide.mpr (h.explicitAcks x)) (funext h.retries)
  · intro h
    have hf := fun x => congrArg (fun v : LedgerView => (v.acked x, v.retried x)) h
    simp only [QueueEventResult.view, LedgerView.mk.injEq, Prod.mk.injEq, decide_eq_decide] at h hf
    exact ⟨h.1, congrArg₂ QueueRetryBatch.mk h.2.1 h.2.2.1, fun x => (hf x).1, fun x => (hf x).2⟩

def LedgerView.step (v : LedgerView) : LedgerCall → LedgerView
  | .message x .ack =>
    if v.ackAll = false ∧ v.retryAll = false ∧ v.retried x = none then
      { v with acked := fun y => v.acked y || decide (y = x) }
    else v
  | .message x (.retry options) =>
    if v.ackAll = false ∧ v.acked x = false then
      { v with retried := fun y => if y = x then some (retryEntry options) else v.retried y }
    else v
  | .ackAll => if v.retryAll then v else { v with ackAll := true }
  | .retryAll options =>
    if v.ackAll then v
    else { v with retryAll := true, batchDelay := (options.bind (·.delaySeconds)).or v.batchDelay }

/-- Each call changes what the ledger reports as a function of what it reported: the
ledger's insertion order never decides a call. -/
theorem view_apply (c : LedgerCall) (s : QueueEventResult) : (c.apply s).view = s.view.step c := by
  rcases c with ⟨x, _ | options⟩ | _ | options
  · rw [apply_ack, LedgerView.step]
    split_ifs with h₁ h₂ h₂
    · ext y <;> simp [QueueEventResult.view, IdSet.mem_findOrCreate]
    · exact absurd h₁ h₂
    · exact absurd h₂ h₁
    · rfl
  · rw [apply_retry, LedgerView.step]
    split_ifs with h₁ h₂ h₂
    · ext y <;> simp [QueueEventResult.view, IdMap.find_upsert]
    · exact absurd (by simpa [QueueEventResult.view] using h₁) h₂
    · exact absurd (by simpa [QueueEventResult.view] using h₂) h₁
    · rfl
  · rw [apply_ackAll, LedgerView.step]
    split_ifs with h₁ h₂ h₂ <;> first | rfl | exact absurd h₁ h₂ | exact absurd h₂ h₁
  · rw [apply_retryAll, LedgerView.step]
    split_ifs with h₁ h₂ h₂ <;> first | rfl | exact absurd h₁ h₂ | exact absurd h₂ h₁

/-! ## The meaning of a history -/

namespace LedgerCall

def isBatch : LedgerCall → Bool
  | .message _ _ => false
  | _ => true

def settles (x : String) : LedgerCall → Bool
  | .message id _ => decide (id = x)
  | _ => true

def isAckOf (x : String) : LedgerCall → Bool
  | .message id .ack => decide (id = x)
  | _ => false

def isAckAll : LedgerCall → Bool
  | .ackAll => true
  | _ => false

def isRetryAll : LedgerCall → Bool
  | .retryAll _ => true
  | _ => false

def retryOf (x : String) : LedgerCall → Option (Option QueueRetryOptions)
  | .message id (.retry options) => if id = x then some options else none
  | _ => none

def batchDelayOf : LedgerCall → Option CInt
  | .retryAll options => options.bind (·.delaySeconds)
  | _ => none

end LedgerCall

/-- The calls that can still land: all of them, unless the first batch-level call is
`ackAll`, which freezes the ledger from there on. -/
def liveCalls : List LedgerCall → List LedgerCall
  | [] => []
  | .ackAll :: _ => []
  | .retryAll options :: rest => .retryAll options :: rest
  | .message id call :: rest => .message id call :: liveCalls rest

def historyView (calls : List LedgerCall) : LedgerView where
  ackAll := (calls.find? LedgerCall.isBatch).any LedgerCall.isAckAll
  retryAll := (calls.find? LedgerCall.isBatch).any LedgerCall.isRetryAll
  batchDelay := ((liveCalls calls).filterMap LedgerCall.batchDelayOf).getLast?
  acked x := (calls.find? (LedgerCall.settles x)).any (LedgerCall.isAckOf x)
  retried x :=
    if (calls.find? (LedgerCall.settles x)).any (LedgerCall.isAckOf x) then none
    else (((liveCalls calls).filterMap (LedgerCall.retryOf x)).getLast?).map retryEntry

section History

variable {l : List LedgerCall} {c : LedgerCall} {x : String}

theorem settles_of_isBatch (h : c.isBatch = true) : c.settles x = true := by
  cases c <;> simp_all [LedgerCall.isBatch, LedgerCall.settles]

theorem settles_of_retryOf (h : c.retryOf x ≠ none) : c.settles x = true := by
  rcases c with ⟨id, _ | o⟩ | _ | _
  · exact absurd rfl h
  · by_cases hx : id = x
    · simp [LedgerCall.settles, hx]
    · simp [LedgerCall.retryOf, hx] at h
  all_goals rfl

theorem settles_of_batchDelayOf (h : c.batchDelayOf ≠ none) : c.settles x = true := by
  cases c
  · exact absurd rfl h
  all_goals rfl

theorem find?_isBatch_cases (l : List LedgerCall) :
    l.find? LedgerCall.isBatch = none ∨ l.find? LedgerCall.isBatch = some .ackAll ∨
      ∃ options, l.find? LedgerCall.isBatch = some (.retryAll options) := by
  cases h : l.find? LedgerCall.isBatch with
  | none => exact .inl rfl
  | some c =>
    have hc := List.find?_some h
    rcases c with ⟨_, _⟩ | _ | options
    · simp [LedgerCall.isBatch] at hc
    · exact .inr (.inl rfl)
    · exact .inr (.inr ⟨options, rfl⟩)

theorem find?_isBatch_of_find?_settles (h : l.find? (LedgerCall.settles x) = none) :
    l.find? LedgerCall.isBatch = none :=
  List.find?_eq_none.mpr fun c hc hb => List.find?_eq_none.mp h c hc (settles_of_isBatch hb)

theorem liveCalls_append (l : List LedgerCall) (c : LedgerCall) :
    liveCalls (l ++ [c]) =
      if ((l ++ [c]).find? LedgerCall.isBatch).any LedgerCall.isAckAll then liveCalls l
      else liveCalls l ++ [c] := by
  induction l with
  | nil => rcases c with ⟨_, _⟩ | _ | _ <;> rfl
  | cons d l ih =>
    rcases d with ⟨id, call⟩ | _ | options
    · rw [List.cons_append, liveCalls, ih, List.find?_cons_of_neg _ (by simp [LedgerCall.isBatch])]
      split <;> rfl
    · rfl
    · rfl

theorem mem_of_mem_liveCalls (h : c ∈ liveCalls l) : c ∈ l := by
  induction l with
  | nil => exact h
  | cons d l ih =>
    rcases d with ⟨id, call⟩ | _ | options
    · rcases List.mem_cons.mp h with rfl | h
      exacts [List.mem_cons_self _ _, List.mem_cons_of_mem _ (ih h)]
    · exact absurd h (List.not_mem_nil _)
    · exact h

theorem mem_liveCalls_of_find? (h : l.find? (LedgerCall.settles x) = some c)
    (hc : c.isBatch = false) : c ∈ liveCalls l := by
  induction l with
  | nil => exact absurd h (by simp)
  | cons d l ih =>
    rcases d with ⟨id, call⟩ | _ | options
    · rw [List.find?_cons] at h
      split at h
      · exact Option.some.inj h ▸ List.mem_cons_self _ _
      · exact List.mem_cons_of_mem _ (ih h)
    all_goals cases Option.some.inj h; simp [LedgerCall.isBatch] at hc

theorem filterMap_retryOf_of_find? (h : l.find? (LedgerCall.settles x) = none) :
    (liveCalls l).filterMap (LedgerCall.retryOf x) = [] :=
  List.filterMap_eq_nil_iff.mpr fun c hc => Classical.byContradiction fun hn =>
    List.find?_eq_none.mp h c (mem_of_mem_liveCalls hc) (settles_of_retryOf hn)

theorem getLast?_filterMap_singleton {β : Type} (f : LedgerCall → Option β) :
    ([c].filterMap f).getLast? = f c := by
  cases h : f c <;> simp [h]

theorem filterMap_liveCalls_append {β : Type} (f : LedgerCall → Option β) (hf : f c = none) :
    (liveCalls (l ++ [c])).filterMap f = (liveCalls l).filterMap f := by
  rw [liveCalls_append]
  split <;> simp [hf]

theorem any_isAckOf_append (hc : c.isAckOf x = false) :
    ((l ++ [c]).find? (LedgerCall.settles x)).any (LedgerCall.isAckOf x) =
      (l.find? (LedgerCall.settles x)).any (LedgerCall.isAckOf x) := by
  rw [List.find?_append]
  cases l.find? (LedgerCall.settles x) with
  | none => simp only [Option.none_or, List.find?_singleton]; split <;> simp [hc]
  | some d => rfl

theorem historyView_append_batch (l : List LedgerCall) (c : LedgerCall)
    (hc : ∀ x, c.isAckOf x = false ∧ c.retryOf x = none) :
    historyView (l ++ [c]) =
      { historyView l with
        ackAll := ((l ++ [c]).find? LedgerCall.isBatch).any LedgerCall.isAckAll
        retryAll := ((l ++ [c]).find? LedgerCall.isBatch).any LedgerCall.isRetryAll
        batchDelay := ((liveCalls (l ++ [c])).filterMap LedgerCall.batchDelayOf).getLast? } :=
  LedgerView.ext rfl rfl rfl (funext fun x => any_isAckOf_append (hc x).1)
    (funext fun x => by
      simp only [historyView, any_isAckOf_append (hc x).1, filterMap_liveCalls_append _ (hc x).2])

theorem find?_isBatch_append_message (id : String) (call : MessageCall) :
    (l ++ [LedgerCall.message id call]).find? LedgerCall.isBatch = l.find? LedgerCall.isBatch := by
  simp [LedgerCall.isBatch]

theorem historyView_append_message (id : String) (call : MessageCall) :
    historyView (l ++ [.message id call]) =
      { historyView l with
        acked := (historyView (l ++ [.message id call])).acked
        retried := (historyView (l ++ [.message id call])).retried } :=
  LedgerView.ext (congrArg (Option.any _) (find?_isBatch_append_message id call))
    (congrArg (Option.any _) (find?_isBatch_append_message id call))
    (congrArg List.getLast? (filterMap_liveCalls_append _ (by rfl))) rfl rfl

theorem find?_isBatch_of_flags (ha : (historyView l).ackAll = false) (hr : (historyView l).retryAll = false) :
    l.find? LedgerCall.isBatch = none := by
  rcases find?_isBatch_cases l with h | h | ⟨o, h⟩
  · exact h
  · simp [historyView, h, LedgerCall.isAckAll] at ha
  · simp [historyView, h, LedgerCall.isRetryAll] at hr

theorem ack_guard_iff (hk : (historyView l).acked y = false) :
    ((historyView l).ackAll = false ∧ (historyView l).retryAll = false ∧ (historyView l).retried y = none) ↔
      l.find? (LedgerCall.settles y) = none := by
  constructor
  · rintro ⟨ha, hr, hn⟩
    have hB := find?_isBatch_of_flags ha hr
    cases hF : l.find? (LedgerCall.settles y) with
    | none => rfl
    | some d =>
      have hd := List.find?_some hF
      rcases d with ⟨z, _ | o⟩ | _ | o
      · have hz : z = y := by simpa [LedgerCall.settles] using hd
        simp [historyView, hF, LedgerCall.isAckOf, hz] at hk
      · have hz : z = y := by simpa [LedgerCall.settles] using hd
        subst hz
        have hm : o ∈ (liveCalls l).filterMap (LedgerCall.retryOf z) :=
          List.mem_filterMap.mpr ⟨_, mem_liveCalls_of_find? hF rfl, by simp [LedgerCall.retryOf]⟩
        refine absurd ?_ (List.ne_nil_of_mem hm)
        simpa [historyView, LedgerCall.isAckOf, hF] using hn
      all_goals exact (List.find?_eq_none.mp hB _ (List.mem_of_find?_eq_some hF) rfl).elim
  · intro hF
    have hB := find?_isBatch_of_find?_settles hF
    refine ⟨by simp [historyView, hB], by simp [historyView, hB], ?_⟩
    simp only [historyView, hF, filterMap_retryOf_of_find? hF]
    rfl

end History

theorem acked_append_ack (l : List LedgerCall) (x y : String) :
    (historyView (l ++ [.message y .ack])).acked x =
      ((historyView l).acked x || decide (x = y) && (l.find? (LedgerCall.settles y)).isNone) := by
  by_cases hx : x = y
  · subst hx
    simp only [historyView, List.find?_append]
    cases l.find? (LedgerCall.settles x) <;> simp [LedgerCall.settles, LedgerCall.isAckOf]
  · show ((l ++ [LedgerCall.message y .ack]).find? (LedgerCall.settles x)).any (LedgerCall.isAckOf x) = _
    rw [any_isAckOf_append]
    · simp [historyView, hx]
    · simp [LedgerCall.isAckOf, Ne.symm hx]

theorem retried_append_ack (l : List LedgerCall) (x y : String) :
    (historyView (l ++ [.message y .ack])).retried x = (historyView l).retried x := by
  have hr : (liveCalls (l ++ [.message y .ack])).filterMap (LedgerCall.retryOf x) =
      (liveCalls l).filterMap (LedgerCall.retryOf x) := filterMap_liveCalls_append _ rfl
  have ha := acked_append_ack l x y
  simp only [historyView] at ha ⊢
  rw [ha, hr]
  by_cases hF : x = y ∧ l.find? (LedgerCall.settles y) = none
  · obtain ⟨rfl, hF⟩ := hF
    simp [hF, filterMap_retryOf_of_find? hF]
  · have hn : (decide (x = y) && (l.find? (LedgerCall.settles y)).isNone) = false := by
      simpa [Option.isNone_iff_eq_none] using hF
    rw [hn, Bool.or_false]

theorem historyView_append_ack (l : List LedgerCall) (y : String) :
    historyView (l ++ [.message y .ack]) = (historyView l).step (.message y .ack) := by
  rw [historyView_append_message, LedgerView.step]
  split_ifs with hg
  all_goals
    refine LedgerView.ext rfl rfl rfl (funext fun x => ?_) (funext fun x => retried_append_ack l x y)
    dsimp only
    rw [acked_append_ack]
    by_cases hx : x = y
    · subst hx
      cases hk : (historyView l).acked x
      · have hF := (ack_guard_iff hk).not
        simp only [Bool.false_or, decide_True, Bool.true_and]
        first
          | exact Option.isNone_iff_eq_none.mpr ((ack_guard_iff hk).mp hg)
          | exact Bool.eq_false_iff.mpr fun h => hg ((ack_guard_iff hk).mpr (Option.isNone_iff_eq_none.mp h))
      · rfl
    · simp [hx]

theorem historyView_append_retry (l : List LedgerCall) (y : String) (options : Option QueueRetryOptions) :
    historyView (l ++ [.message y (.retry options)]) = (historyView l).step (.message y (.retry options)) := by
  rw [historyView_append_message, LedgerView.step]
  have hk (x : String) : (historyView (l ++ [.message y (.retry options)])).acked x = (historyView l).acked x :=
    any_isAckOf_append rfl
  have hr (x : String) : (historyView (l ++ [.message y (.retry options)])).retried x =
      if x = y ∧ (historyView l).ackAll = false ∧ (historyView l).acked y = false then
        some (retryEntry options)
      else (historyView l).retried x := by
    by_cases hx : x = y
    · subst hx
      have hk' := hk x
      simp only [historyView] at hk' ⊢
      rw [hk', liveCalls_append, find?_isBatch_append_message]
      cases (l.find? (LedgerCall.settles x)).any (LedgerCall.isAckOf x) <;>
        cases (l.find? LedgerCall.isBatch).any LedgerCall.isAckAll <;> simp [LedgerCall.retryOf]
    · have hf : (liveCalls (l ++ [.message y (.retry options)])).filterMap (LedgerCall.retryOf x) =
          (liveCalls l).filterMap (LedgerCall.retryOf x) :=
        filterMap_liveCalls_append _ (by simp [LedgerCall.retryOf, Ne.symm hx])
      simp only [historyView, hx, false_and, if_false] at hk ⊢
      rw [hk, hf]
  split_ifs with hg
  · refine LedgerView.ext rfl rfl rfl (funext hk) (funext fun x => ?_)
    rw [hr]
    by_cases hx : x = y <;> simp [hx, hg]
  · exact LedgerView.ext rfl rfl rfl (funext hk) (funext fun x => by rw [hr, if_neg fun h => hg h.2])

theorem historyView_append_ackAll (l : List LedgerCall) :
    historyView (l ++ [.ackAll]) = (historyView l).step .ackAll := by
  rw [historyView_append_batch l .ackAll fun _ => ⟨rfl, rfl⟩, liveCalls_append, LedgerView.step]
  rcases find?_isBatch_cases l with h | h | ⟨o, h⟩ <;> ext1 <;>
    simp only [historyView, h, List.find?_append, List.find?_cons_of_pos, LedgerCall.isBatch,
      LedgerCall.isAckAll, LedgerCall.isRetryAll, Option.none_or, Option.or_some, Option.any_some,
      Option.any_none, Bool.false_eq_true, ↓reduceIte, List.filterMap_append, List.getLast?_append,
      getLast?_filterMap_singleton, LedgerCall.batchDelayOf]

theorem historyView_append_retryAll (l : List LedgerCall) (options : Option QueueRetryOptions) :
    historyView (l ++ [.retryAll options]) = (historyView l).step (.retryAll options) := by
  rw [historyView_append_batch l (.retryAll options) fun _ => ⟨rfl, rfl⟩, liveCalls_append,
    LedgerView.step]
  rcases find?_isBatch_cases l with h | h | ⟨o, h⟩ <;> ext1 <;>
    simp only [historyView, h, List.find?_append, List.find?_cons_of_pos, LedgerCall.isBatch,
      LedgerCall.isAckAll, LedgerCall.isRetryAll, Option.none_or, Option.or_some, Option.any_some,
      Option.any_none, Bool.false_eq_true, ↓reduceIte, List.filterMap_append, List.getLast?_append,
      getLast?_filterMap_singleton, LedgerCall.batchDelayOf]

/-- The meaning of a history is the code's call on the meaning of the history before it. -/
theorem historyView_append (l : List LedgerCall) (c : LedgerCall) :
    historyView (l ++ [c]) = (historyView l).step c := by
  rcases c with ⟨y, _ | options⟩ | _ | options
  · exact historyView_append_ack l y
  · exact historyView_append_retry l y options
  · exact historyView_append_ackAll l
  · exact historyView_append_retryAll l options

theorem runCalls_append (l : List LedgerCall) (c : LedgerCall) (s : QueueEventResult) :
    runCalls (l ++ [c]) s = c.apply (runCalls l s) := by
  rw [runCalls, List.foldl_append]
  rfl

/-- The code refines the history semantics: after any history of calls on a fresh ledger,
everything the ledger reports is what the history means. -/
theorem view_runCalls (calls : List LedgerCall) : (runCalls calls {}).view = historyView calls := by
  induction calls using List.reverseRecOn with
  | nil => rfl
  | append_singleton l c ih => rw [runCalls_append, view_apply, ih, historyView_append]

/-- After any history of calls on a fresh ledger, each field of the ledger is read off the
history: the flags from the first batch-level call, an ack from the first call settling
the message, a retry entry from the last retry that could still land, the batch delay
from the last `retryAll` that landed. -/
theorem runCalls_fields_of_history (calls : List LedgerCall) (x : String) :
    (runCalls calls {}).ackAll = (calls.find? LedgerCall.isBatch).any LedgerCall.isAckAll ∧
      (runCalls calls {}).retryBatch.retry =
        (calls.find? LedgerCall.isBatch).any LedgerCall.isRetryAll ∧
      (runCalls calls {}).retryBatch.delaySeconds =
        ((liveCalls calls).filterMap LedgerCall.batchDelayOf).getLast? ∧
      (x ∈ (runCalls calls {}).explicitAcks.ids ↔
        (calls.find? (LedgerCall.settles x)).any (LedgerCall.isAckOf x)) ∧
      (runCalls calls {}).retries.find x =
        if (calls.find? (LedgerCall.settles x)).any (LedgerCall.isAckOf x) then none
        else (((liveCalls calls).filterMap (LedgerCall.retryOf x)).getLast?).map retryEntry := by
  have h := view_runCalls calls
  simp only [QueueEventResult.view, historyView, LedgerView.mk.injEq] at h
  exact ⟨h.1, h.2.1, h.2.2.1, by rw [← congrFun h.2.2.2.1 x, decide_eq_true_iff], congrFun h.2.2.2.2 x⟩

section Runs

variable {s t : QueueEventResult}

theorem ledgerEquiv_apply (h : LedgerEquiv s t) (c : LedgerCall) : LedgerEquiv (c.apply s) (c.apply t) :=
  ledgerEquiv_iff_view_eq.mpr (by rw [view_apply, view_apply, ledgerEquiv_iff_view_eq.mp h])

/-- Two ledgers that report the same thing keep doing so under every run of calls: the
order in which the tables hold their rows never decides what a later call does. -/
theorem ledgerEquiv_runCalls (h : LedgerEquiv s t) (calls : List LedgerCall) :
    LedgerEquiv (runCalls calls s) (runCalls calls t) := by
  induction calls generalizing s t with
  | nil => exact h
  | cons c rest ih => exact ih (ledgerEquiv_apply h c)

end Runs

theorem ledgerEquiv_runCalls_swapped_acks :
    LedgerEquiv { explicitAcks := ⟨["a", "b"], by decide⟩ } { explicitAcks := ⟨["b", "a"], by decide⟩ } ∧
      LedgerEquiv (runCalls [.message "c" .ack, .retryAll none] { explicitAcks := ⟨["a", "b"], by decide⟩ })
        (runCalls [.message "c" .ack, .retryAll none] { explicitAcks := ⟨["b", "a"], by decide⟩ }) :=
  (fun h => ⟨h, ledgerEquiv_runCalls h _⟩) ⟨rfl, rfl, fun _ => by simp [or_comm], fun _ => rfl⟩

theorem filterMap_filter_settles {β : Type} (l : List LedgerCall) (x : String) (f : LedgerCall → Option β)
    (hf : ∀ c, f c ≠ none → c.settles x = true) :
    (l.filter (LedgerCall.settles x)).filterMap f = l.filterMap f := by
  rw [List.filterMap_filter]
  congr 1
  funext c
  by_cases h : c.settles x = true
  · rw [if_pos h]
  · rw [if_neg h, Classical.not_not.mp (mt (hf c) h)]

theorem filter_liveCalls (l : List LedgerCall) (x : String) :
    (liveCalls l).filter (LedgerCall.settles x) = liveCalls (l.filter (LedgerCall.settles x)) := by
  induction l with
  | nil => rfl
  | cons d l ih =>
    rcases d with ⟨id, call⟩ | _ | options
    · by_cases h : id = x <;> simp [liveCalls, List.filter_cons, LedgerCall.settles, h, ih]
    · rfl
    · rfl

theorem filter_settles_isBatch (l : List LedgerCall) (x : String) :
    (l.filter (LedgerCall.settles x)).filter LedgerCall.isBatch = l.filter LedgerCall.isBatch := by
  rw [List.filter_filter]
  exact List.filter_congr fun c _ => by cases c <;> rfl

theorem historyView_congr {l l' : List LedgerCall}
    (h : ∀ x, l.filter (LedgerCall.settles x) = l'.filter (LedgerCall.settles x)) :
    historyView l = historyView l' := by
  have hb : l.find? LedgerCall.isBatch = l'.find? LedgerCall.isBatch := by
    rw [← List.filter_head?, ← List.filter_head?, ← filter_settles_isBatch l "", h,
      filter_settles_isBatch]
  have hl {β : Type} (x : String) (f : LedgerCall → Option β) (hf : ∀ c, f c ≠ none → c.settles x = true) :
      (liveCalls l).filterMap f = (liveCalls l').filterMap f := by
    rw [← filterMap_filter_settles _ x f hf, filter_liveCalls, h, ← filter_liveCalls,
      filterMap_filter_settles _ x f hf]
  have hd := hl "" LedgerCall.batchDelayOf fun _ => settles_of_batchDelayOf
  have hr (x : String) := hl x (LedgerCall.retryOf x) fun _ => settles_of_retryOf
  have hf (x : String) : l.find? (LedgerCall.settles x) = l'.find? (LedgerCall.settles x) := by
    rw [← List.filter_head?, ← List.filter_head?, h]
  exact LedgerView.ext (congrArg (Option.any _) hb) (congrArg (Option.any _) hb)
    (congrArg List.getLast? hd) (funext fun x => congrArg (Option.any _) (hf x))
    (funext fun x => by simp only [historyView, hf, hr])

/-- Reordering a handler's calls so that each message keeps the order of its own calls
relative to one another and to the batch-level calls never changes the reported ledger. -/
theorem reorder_keeps_ledger (l l' : List LedgerCall)
    (h : ∀ x, l.filter (LedgerCall.settles x) = l'.filter (LedgerCall.settles x)) :
    LedgerEquiv (runCalls l {}) (runCalls l' {}) :=
  ledgerEquiv_iff_view_eq.mpr (by rw [view_runCalls, view_runCalls, historyView_congr h])

theorem reorder_keeps_ledger_across_ackAll :
    (∀ x, [.message "a" .ack, .message "b" (.retry none), .ackAll, .message "c" .ack].filter
        (LedgerCall.settles x) =
      [.message "b" (.retry none), .message "a" .ack, .ackAll, .message "c" .ack].filter
        (LedgerCall.settles x)) ∧
    LedgerEquiv (runCalls [.message "a" .ack, .message "b" (.retry none), .ackAll, .message "c" .ack] {})
      (runCalls [.message "b" (.retry none), .message "a" .ack, .ackAll, .message "c" .ack] {}) := by
  refine (fun h => ⟨h, reorder_keeps_ledger _ _ h⟩) fun x => ?_
  by_cases ha : "a" = x
  · subst ha
    simp [LedgerCall.settles, List.filter_cons]
  · simp [LedgerCall.settles, List.filter_cons, ha]

end WorkerdQueue
