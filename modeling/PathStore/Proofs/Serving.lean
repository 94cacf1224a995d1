import PathStore.Proofs.Calls
import PathStore.Proofs.SharedState

/-!
# The service between calls

Between calls the service finds a state through its registry, which holds a plain mapping at a version
(`App.Serves`).  Carrying out a call gives the reply that contents and version call for, and leaves the
service with what the call makes of them (`App.Serves.carryOut`).  A lack of room to copy contents is
the only thing that can go wrong after the operation of a call (`answerAfter_shares`).
-/

namespace PathStore.Service

variable {room : Call → Data → Bool} {fits : Data → Bool} {t : Data} {v n r : Nat} {c : Call}
  {a : App} {h : Hub}

/-! ## Snapshots of contents -/

theorem refresher_of_fits (hs : Shares r n t v h) (hd : fits t = true) :
    App.refresher fits h n = h.refresh n := by
  unfold App.refresher App.contents
  rw [hs.tree, if_pos hd]

theorem refresher_of_not_fits (hs : Shares r n t v h) (hd : fits t = false) :
    App.refresher fits h n = (h, .error .tooDeep) := by
  unfold App.refresher App.contents
  rw [hs.tree, hd]
  rfl

/-- A forced snapshot counts the version up, if there is room for it; nothing else changes. -/
theorem answerAfter_shares {α : Type} (hs : Shares r n t v h) (fits : Data → Bool) (force : Bool)
    (x : α) :
    Shares r n t (v + (force && fits t).toNat)
        (Hub.answerAfter (App.refresher fits) n force h x).1 ∧
      h.store.Grows (Hub.answerAfter (App.refresher fits) n force h x).1.store ∧
      (Hub.answerAfter (App.refresher fits) n force h x).2 =
        if force && !fits t then .error .tooDeep else .ok x := by
  unfold Hub.answerAfter
  cases force with
  | false => exact ⟨hs, Store.Grows.refl _, rfl⟩
  | true =>
    cases hd : fits t with
    | false =>
      simp only [if_true, refresher_of_not_fits hs hd]
      exact ⟨hs, Store.Grows.refl _, rfl⟩
    | true =>
      obtain ⟨hr, hg, st, hst⟩ := hs.refresh
      rw [← refresher_of_fits hs hd] at hr hg hst
      simp only [if_true]
      generalize App.refresher fits h n = refreshed at *
      obtain ⟨h', result⟩ := refreshed
      simp only at hst
      subst hst
      exact ⟨hr, hg, rfl⟩

/-- Setting a value that was just made does to the contents what it does to a tree, and adds a version
where it is forced and succeeds. -/
theorem setWith_shares (hs : Shares r n t v h) (room : Call → Data → Bool) (p : Payload)
    (hj : p.value.IsJson) :
    Shares r n ((Call.write p).carry t).1 (v + (Call.write p).rise room t)
        (Hub.setWith (App.refresher (room (.write p))) { h with store := (h.store.load p.value).1 } n
          (.text p.path) (h.store.load p.value).2 p.force).1 ∧
      (Hub.setWith (App.refresher (room (.write p))) { h with store := (h.store.load p.value).1 } n
        (.text p.path) (h.store.load p.value).2 p.force).2.map (fun _ => Data.nothing) =
        (Call.write p).outcome room t := by
  obtain ⟨hset, hout⟩ := hs.setIn hj p.path
  have hcarry : ((Call.write p).carry t).2 =
    (t.setAt (.text p.path) p.value).2.map fun _ => .nothing := rfl
  unfold Hub.setWith
  generalize Hub.setIn _ _ _ _ = done at *
  obtain ⟨h', result⟩ := done
  simp only at hset hout
  rw [← hout] at hcarry
  cases result with
  | error fault =>
    have houtcome := Call.outcome_of_error room hcarry
    rw [Call.rise_of_error houtcome, houtcome]
    exact ⟨hset, rfl⟩
  | ok u =>
    obtain ⟨hans, -, hok⟩ := answerAfter_shares hset (room (.write p)) p.force ()
    rw [Call.rise_of_carry hcarry rfl, Call.outcome_of_ok hcarry]
    refine ⟨hans, ?_⟩
    simp only [hok]
    -- the copy is made of the contents after the write
    change _ = if p.force && !room (.write p) (t.setAt (.text p.path) p.value).1 then _ else _
    split <;> rfl

theorem deleteWith_shares (hs : Shares r n t v h) (room : Call → Data → Bool) (path : Text)
    (keep force : Bool) :
    Shares r n ((Call.delete path keep force).carry t).1
        (v + (Call.delete path keep force).rise room t)
        (h.deleteWith (App.refresher (room (.delete path keep force))) n (.text path)
          (.ofBool keep) force).1 ∧
      (h.deleteWith (App.refresher (room (.delete path keep force))) n (.text path) (.ofBool keep)
        force).2.map (h.deleteWith (App.refresher (room (.delete path keep force))) n (.text path)
          (.ofBool keep) force).1.store.tree = (Call.delete path keep force).outcome room t := by
  obtain ⟨hdel, hold, hout⟩ := hs.deleteIn path (.ofBool keep)
  have hcarry : (Call.delete path keep force).carry t =
    t.deleteAt (.text path) (Choice.ofBool keep).yes := rfl
  unfold Hub.deleteWith
  generalize Hub.deleteIn _ _ _ _ = done at *
  obtain ⟨h', result⟩ := done
  simp only at hdel hold hout
  rw [← hcarry] at hdel hout
  cases result with
  | error fault =>
    have houtcome := Call.outcome_of_error room hout.symm
    rw [Call.rise_of_error houtcome, houtcome]
    exact ⟨hdel, rfl⟩
  | ok removed =>
    obtain ⟨hans, hg, hok⟩ :=
      answerAfter_shares hdel (room (.delete path keep force)) force removed
    have hfin : h'.store.IsFinite removed := hold removed rfl
    have hkeep := (hg.keeps hfin.closed).tree hfin
    rw [Call.rise_of_carry hout.symm rfl, Call.outcome_of_ok hout.symm]
    refine ⟨hans, ?_⟩
    simp only [hok]
    change _ = if force && !room (.delete path keep force)
      ((Call.delete path keep force).carry t).1 then _ else _
    split
    · rfl
    · exact congrArg Except.ok hkeep

/-! ## Calls on a service -/

namespace App

/-- The service finds state `n` through its registry, and there a plain mapping at a version. -/
structure Serves (a : App) (r n : Nat) (t : Data) (v : Nat) : Prop where
  registry : a.registry = some r
  shares : Shares r n t v a.hub
  isMapping : t.isMapping = true

theorem Serves.sharedState (hs : a.Serves r n t v) : a.sharedState = (a, .ok n) := by
  obtain ⟨hub, registry, threshold, title⟩ := a
  obtain rfl : registry = some r := hs.registry
  simp only [App.sharedState, hs.shares.resolve]

theorem changed_eq (hs : Shares r n t v h) (more : List (Text × Data)) :
    changed h n more = told v more := by
  rw [← hs.version]
  rfl

theorem Serves.getValue (hs : a.Serves r n t v) (room : Call → Data → Bool) (path : Text) :
    (a.hub.getValue n (.text path)).map a.hub.store.tree = (Call.read path).outcome room t := by
  rw [Hub.getValue, Storage.get_spec hs.shares.tracks.isFinite rfl, hs.shares.tree]
  rfl

theorem Serves.readValue (hs : a.Serves r n t v) (room : Call → Data → Bool) (path : Text) :
    a.readValue n path = (Call.read path).reply room t v := by
  have hget := (hs.getValue room path).symm
  unfold App.readValue
  cases hr : a.hub.getValue n (.text path) with
  | ok w =>
    rw [hr] at hget
    rw [Call.reply_of_ok hget]
    rfl
  | error fault =>
    rw [hr] at hget
    rw [Call.reply_of_error hget]

theorem Serves.writeValue {p : Payload} (hs : a.Serves r n t v) (room : Call → Data → Bool)
    (hj : p.value.IsJson) :
    Shares r n ((Call.write p).carry t).1 (v + (Call.write p).rise room t)
        (a.writeValue (room (.write p)) n p).1.hub ∧
      (a.writeValue (room (.write p)) n p).2 = (Call.write p).reply room t v := by
  obtain ⟨hset, hout⟩ := setWith_shares hs.shares room p hj
  unfold App.writeValue
  generalize a.hub.store.load p.value = made at *
  obtain ⟨s, w⟩ := made
  simp only at hset hout ⊢
  generalize Hub.setWith _ _ _ _ _ _ = done at *
  obtain ⟨h', result⟩ := done
  simp only at hset hout
  cases result with
  | ok u =>
    rw [Call.rise_of_ok hout.symm] at hset ⊢
    rw [Call.reply_of_ok hout.symm]
    have hnoted : Shares r n ((Call.write p).carry t).1 (v + (Call.write p).forces.toNat)
        (h'.note ⟨.debug, "Stored value at " ++ p.path ++ " via API"⟩) :=
      hset.grows rfl rfl (Store.Grows.refl _)
    refine ⟨hnoted, ?_⟩
    simp only [changed_eq hnoted]
    rfl
  | error fault => exact ⟨hset, (Call.reply_of_error hout.symm).symm⟩

/-- A deletion is replied to with what it has taken out, or crashes. -/
theorem Serves.deleteValue_outcome (hs : a.Serves r n t v) (room : Call → Data → Bool) (path : Text)
    (keep force : Bool) :
    Shares r n ((Call.delete path keep force).carry t).1
        (v + (Call.delete path keep force).rise room t)
        (a.deleteValue (room (.delete path keep force)) n path keep force).1.hub ∧
      (a.deleteValue (room (.delete path keep force)) n path keep force).2 =
        match (Call.delete path keep force).outcome room t with
        | .ok u => .contents ((Call.delete path keep force).shown t v u)
        | .error fault => .crash fault := by
  obtain ⟨hdel, hout⟩ := deleteWith_shares hs.shares room path keep force
  unfold App.deleteValue
  generalize Hub.deleteWith _ _ _ _ _ _ = done at *
  obtain ⟨h', result⟩ := done
  simp only at hdel hout
  cases result with
  | ok removed =>
    rw [Call.rise_of_ok hout.symm] at hdel ⊢
    rw [← hout]
    refine ⟨hdel, ?_⟩
    simp only [changed_eq hdel]
    rfl
  | error fault =>
    rw [← hout]
    exact ⟨hdel, rfl⟩

theorem Serves.deleteValue {path : Text} {keep force : Bool} (hs : a.Serves r n t v)
    (room : Call → Data → Bool) (hc : (Call.delete path keep force).Allowed t) :
    Shares r n ((Call.delete path keep force).carry t).1
        (v + (Call.delete path keep force).rise room t)
        (a.deleteValue (room (.delete path keep force)) n path keep force).1.hub ∧
      (a.deleteValue (room (.delete path keep force)) n path keep force).2 =
        (Call.delete path keep force).reply room t v := by
  obtain ⟨hshares, hsend⟩ := hs.deleteValue_outcome room path keep force
  refine ⟨hshares, hsend.trans ?_⟩
  -- nothing but a failed copy stops a deletion
  rcases hc.comes room hs.isMapping with ⟨-, hok⟩ | ⟨-, -, -, hmem, -⟩ | ⟨-, hdeep⟩
  · rw [hok, Call.reply_of_ok hok]
  · cases hmem
  · rw [hdeep, Call.reply_of_error hdeep]
    rfl

theorem Serves.refresh (hs : a.Serves r n t v) (room : Call → Data → Bool) :
    Shares r n t (v + Call.refresh.rise room t) (a.refresh (room .refresh) n).1.hub ∧
      (a.refresh (room .refresh) n).2 = Call.refresh.reply room t v := by
  unfold App.refresh
  cases hd : room .refresh t with
  | false =>
    have houtcome : Call.refresh.outcome room t = .error .tooDeep :=
      Call.outcome_of_lacksRoom (by rw [Call.refresh_lacksRoom, hd]; rfl)
    rw [refresher_of_not_fits hs.shares hd, Call.rise_of_error houtcome,
      Call.reply_of_error houtcome]
    exact ⟨hs.shares, rfl⟩
  | true =>
    have houtcome : Call.refresh.outcome room t = .ok .nothing :=
      Call.outcome_of_room (by rw [Call.refresh_lacksRoom, hd]; rfl)
    obtain ⟨hr, -, st, hst⟩ := hs.shares.refresh
    rw [refresher_of_fits hs.shares hd, Call.rise_of_ok houtcome, Call.reply_of_ok houtcome]
    generalize Hub.refresh _ _ = done at *
    obtain ⟨h', result⟩ := done
    simp only at hr hst
    subst hst
    refine ⟨hr, ?_⟩
    simp only [changed_eq hr]
    rfl

theorem Serves.snapshot (hs : a.Serves r n t v) (room : Call → Data → Bool) :
    a.snapshot (room .snapshot) n = Call.snapshot.reply room t v := by
  unfold App.snapshot contents
  rw [hs.shares.tree, hs.shares.version]
  cases hd : room .snapshot t with
  | false =>
    have houtcome : Call.snapshot.outcome room t = .error .tooDeep :=
      Call.outcome_of_lacksRoom (by rw [Call.snapshot_lacksRoom, hd]; rfl)
    rw [Call.reply_of_error houtcome]
    exact if_neg (by simp [hd])
  | true =>
    have houtcome : Call.snapshot.outcome room t = .ok .nothing :=
      Call.outcome_of_room (by rw [Call.snapshot_lacksRoom, hd]; rfl)
    rw [Call.reply_of_ok houtcome]
    exact if_pos hd

/-- No call changes where the service finds its state. -/
theorem carryOut_registry (room : Call → Data → Bool) (a : App) (n : Nat) (c : Call) :
    (a.carryOut room n c).1.registry = a.registry := by
  cases c with
  | read path => rfl
  | write p => simp only [App.carryOut, App.writeValue]; split <;> rfl
  | delete path keep force => simp only [App.carryOut, App.deleteValue]; split <;> rfl
  | refresh => simp only [App.carryOut, App.refresh]; split <;> rfl
  | snapshot => rfl

/-- A call gets its reply, and the service keeps what the call makes of the contents. -/
theorem Serves.carryOut (hs : a.Serves r n t v) (room : Call → Data → Bool) (hc : c.Allowed t) :
    (a.carryOut room n c).1.Serves r n (c.carry t).1 (v + c.rise room t) ∧
      (a.carryOut room n c).2 = c.reply room t v := by
  have hm : (c.carry t).1.isMapping = true := by
    unfold Call.carry
    cases c.op? with
    | none => exact hs.isMapping
    | some op => exact Data.perform_isMapping hs.isMapping op
  have hreg : (a.carryOut room n c).1.registry = some r :=
    (a.carryOut_registry room n c).trans hs.registry
  cases c with
  | read path => exact ⟨hs, hs.readValue room path⟩
  | write p =>
    obtain ⟨hshares, hsend⟩ := hs.writeValue room hc.wellFormed.2
    exact ⟨⟨hreg, hshares, hm⟩, hsend⟩
  | delete path keep force =>
    obtain ⟨hshares, hsend⟩ := hs.deleteValue room hc
    exact ⟨⟨hreg, hshares, hm⟩, hsend⟩
  | refresh =>
    obtain ⟨hshares, hsend⟩ := hs.refresh room
    exact ⟨⟨hreg, hshares, hm⟩, hsend⟩
  | snapshot => exact ⟨hs, hs.snapshot room⟩

end App

end PathStore.Service
