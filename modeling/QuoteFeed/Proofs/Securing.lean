import QuoteFeed.Proofs.Dialing
import QuoteFeed.Proofs.Splitting
import Mathlib.Data.List.Nodup

/-!
What a connection has dialed, whatever has happened to it. The handling of one thing keeps the order of the dial, and
so does every run; with encryption the stream is secured in between, for the host of the address as long as this has
no zero octet.
-/

namespace QuoteFeed

namespace Outline

/-- What a journal shows of a connection that is settled as in an outline, and that is through with its dial only on a
condition. -/
structure Shows (k : Outline) (through : Prop) (journal : List Entry) : Prop where
  flow : ∀ e ∈ journal, e.role = .flow → through
  aimed : ∀ c, .call c ∈ journal → c.AimsAt k.wire.endpoint
  secured : SecuredFor k.wire.endpoint.host.untilNul journal
  settled : .call .tlsHandshake ∈ journal → (k.serverNameFails || k.verifyHostFails) = false
  refused : ∀ e ∈ journal, e.role = .naming → (k.serverNameFails || k.verifyHostFails) = true → .status false ∈ journal

/-- From the first outline, by the handling of what is told, a connection has come to the second one: what has been
dialed fits what has been handled and what is outstanding. -/
structure Dialing (k : Outline) (log : List (Wire × Task)) (j : Outline) : Prop extends Kept k j where
  phased : j.Phased
  chain : Dial k.wire.endpoint.tls (dialStarts j.journal)
  current : ∀ o ∈ j.outstanding, o.dials = true → dialStarts j.journal = o :: succeeded log
  ended : succeeded log ≠ [] → Dial k.wire.endpoint.tls (succeeded log)
  through : ∀ o ∈ j.outstanding, o.dials = false → .handshake ∈ succeeded log
  shows : Shows k (.handshake ∈ succeeded log) j.journal

variable {k j l : Outline} {log : List (Wire × Task)} {task : Task} {o p : Operation}
  {through through' refused : Prop} {e : Endpoint} {x : Entry} {c : Call} {es journal : List Entry}

theorem Shows.append (h : Shows k through journal) (hthrough : through → through')
    (hflow : ∀ e ∈ es, e.role = .flow → through') (haimed : ∀ c, .call c ∈ es → c.AimsAt k.wire.endpoint)
    (hsecured : SecuredFor k.wire.endpoint.host.untilNul (es ++ journal))
    (hsettled : .call .tlsHandshake ∈ es → (k.serverNameFails || k.verifyHostFails) = false)
    (hrefused : ∀ e ∈ es, e.role = .naming → (k.serverNameFails || k.verifyHostFails) = true →
      .status false ∈ es ++ journal) : Shows k through' (es ++ journal) where
  flow x hx hrole := by
    rcases List.mem_append.mp hx with hx | hx
    · exact hflow x hx hrole
    · exact hthrough (h.flow x hx hrole)
  aimed c hc := (List.mem_append.mp hc).elim (haimed c) (h.aimed c)
  secured := hsecured
  settled hmem := (List.mem_append.mp hmem).elim hsettled h.settled
  refused x hx hrole hfails := by
    rcases List.mem_append.mp hx with hx | hx
    · exact hrefused x hx hrole hfails
    · exact List.mem_append_right _ (h.refused x hx hrole hfails)

theorem dialStarts_overture {encrypted : Bool} (h : o.next? encrypted = some p) :
    dialStarts (overture e p ++ journal) = p :: dialStarts journal := by
  cases o <;> cases encrypted <;> cases h <;> rfl

theorem role_of_mem_overture (hx : x ∈ overture e p) : x.role = .dial ∨ x.role = .naming ∧ p = .tls := by
  have hall : ∀ x ∈ overture e p, x.role = .dial ∨ x.role = .naming ∧ p = .tls := by
    cases p <;> simp [overture, Entry.role, Call.role]
  exact hall x hx

theorem aimsAt_of_mem_overture (hc : .call c ∈ overture e p) : c.AimsAt e := by
  have hall : ∀ c, .call c ∈ overture e p → c.AimsAt e := by
    cases p <;> simp [overture, or_imp, forall_and, Call.AimsAt]
  exact hall c hc

theorem tlsHandshake_mem_overture (h : .call .tlsHandshake ∈ overture e p) : p = .tls := by
  cases p <;> simp [overture] at h ⊢

theorem secured_overture (h : SecuredFor e.host.untilNul journal) :
    SecuredFor e.host.untilNul (overture e p ++ journal) := by
  by_cases hp : p = .tls
  · subst hp
    have hnames : SecuredFor e.host.untilNul
        ([.call .verifyPeer, .call (.verifyHost e.host.untilNul), .call (.serverName e.host.untilNul)] ++ journal) :=
      h.append (by simp)
    exact hnames.cons fun _ => ⟨journal, rfl⟩
  · exact h.append fun hmem => hp (tlsHandshake_mem_overture hmem)

/-- As the dial goes on, the stream is not secured unless its names have been settled. -/
theorem Shows.overture (h : Shows k through journal) (hthrough : through → through')
    (hsafe : p = .tls → (k.serverNameFails || k.verifyHostFails) = false) :
    Shows k through' (overture k.wire.endpoint p ++ journal) := by
  refine h.append hthrough (fun x hx hrole => ?_) (fun c hc => aimsAt_of_mem_overture hc)
    (secured_overture h.secured) (fun hmem => hsafe (tlsHandshake_mem_overture hmem)) fun x hx hrole hfails => ?_
  · rcases role_of_mem_overture hx with hdial | ⟨hnaming, -⟩
    · cases hrole.symm.trans hdial
    · cases hrole.symm.trans hnaming
  · rcases role_of_mem_overture hx with hdial | ⟨-, hp⟩
    · cases hrole.symm.trans hdial
    · exact Bool.noConfusion ((hsafe hp).symm.trans hfails)

/-- What is besides the dial starts none of its operations. -/
theorem dialStarts_besides (h : ∀ x ∈ es, x.Besides through refused) :
    dialStarts (es ++ journal) = dialStarts journal := by
  have hnone : dialStarts es = [] := by
    refine dialStarts_eq_nil fun x hx o hstarts => ?_
    have hallowed := h x hx
    rw [Entry.Besides, Entry.role_eq hstarts] at hallowed
    cases hd : o.dials with
    | true => simp [hd] at hallowed
    | false => rfl
  rw [dialStarts_append, hnone]
  rfl

theorem Shows.besides (h : Shows k through journal) (hthrough : through → through')
    (hes : ∀ x ∈ es, x.Besides through' (.status false ∈ es ++ journal)) : Shows k through' (es ++ journal) := by
  have hidle : .call .tlsHandshake ∉ es := fun hmem => hes _ hmem
  refine h.append hthrough (fun x hx hrole => ?_) (fun c hc => ?_) (h.secured.append hidle)
    (fun hmem => absurd hmem hidle) fun x hx hrole _ => ?_
  · have hallowed := hes x hx
    rw [Entry.Besides, hrole] at hallowed
    exact hallowed
  · have hallowed := hes _ hc
    cases c with
    | stream | resolve | handshake => exact hallowed.elim
    | _ => trivial
  · have hallowed := hes x hx
    rw [Entry.Besides, hrole] at hallowed
    exact hallowed

theorem Dialing.silent (h : Dialing k log j) (hm : j.Moves none l) : Dialing k log l := by
  have hphased : l.Phased := hm.phased h.phased
  have hsub : ∀ o ∈ l.outstanding, o ∈ j.outstanding := fun o ho => hm.outstanding.mem_iff.mpr ho
  cases hm with
  | still => exact h
  | ended =>
    exact { h with
      phased := hphased
      current := fun o ho => h.current o (hsub o ho)
      through := fun o ho => h.through o (hsub o ho) }

/-- Successes follow one another as the dial does: one that is handled is that of the operation started last. -/
theorem Dialing.succeeded_cons (h : Dialing k log j)
    (hsucceeds : ∀ o, task.succeeds? = some o → o ∈ j.outstanding ∧ o.dials = true) :
    (∀ o ∈ succeeded log, o ∈ succeeded ((j.wire, task) :: log)) ∧
      (succeeded ((j.wire, task) :: log) ≠ [] → Dial k.wire.endpoint.tls (succeeded ((j.wire, task) :: log))) ∧
      (j.Through task → .handshake ∈ succeeded ((j.wire, task) :: log)) := by
  have hcons := QuoteFeed.succeeded_cons j.wire task log
  have hmono : ∀ o ∈ succeeded log, o ∈ succeeded ((j.wire, task) :: log) := by
    intro o ho
    rw [hcons]
    exact List.mem_append_right _ ho
  refine ⟨hmono, ?_, ?_⟩
  · rw [hcons]
    cases hs : task.succeeds? with
    | none => exact h.ended
    | some o =>
      obtain ⟨hmem, hd⟩ := hsucceeds o hs
      -- the successes catch up with the starts
      have hchain : Dial k.wire.endpoint.tls (o :: succeeded log) := h.current o hmem hd ▸ h.chain
      exact fun _ => hchain
  · rintro (hs | ⟨o, ho, hd⟩)
    · rw [hcons, hs]
      exact List.mem_cons_self
    · exact hmono _ (h.through o ho hd)

/-- What is started of the dial as something is handled: the operation that comes next to the one that succeeds, or
nothing. -/
theorem Dialing.dialStarts_eq (h : Dialing k log j) (hm : j.Moves (some task) l) :
    dialStarts l.journal = dialStarts j.journal ∨ ∃ o p, task = .finish 0 o none ∧
      dialStarts j.journal = o :: succeeded log ∧ o.next? k.wire.endpoint.tls = some p ∧
      dialStarts l.journal = p :: dialStarts j.journal := by
  obtain ⟨-, hway, hsucceeds⟩ := hm.way h.phased
  cases hway with
  | @onward o p htask hnext _ hjournal =>
    rw [h.endpoint] at hnext
    have hdials : o.dials = true := (Operation.dials_of_next? hnext).1
    refine .inr ⟨o, p, htask, h.current o (hsucceeds o (htask ▸ if_pos hdials)).1 hdials, hnext, ?_⟩
    rw [hjournal, dialStarts_overture hnext]
  | besides hjournal hbesides => exact .inl (hjournal ▸ dialStarts_besides hbesides)

theorem Dialing.handled (h : Dialing k log j) (hm : j.Moves (some task) l) : Dialing k ((j.wire, task) :: log) l := by
  have hphased : l.Phased := hm.phased h.phased
  obtain ⟨hkept, hway, hsucceeds⟩ := hm.way h.phased
  obtain ⟨hmono, hended, hthrough⟩ := h.succeeded_cons hsucceeds
  cases hway with
  | @onward o p htask hnext hsecure hjournal houtstanding =>
    rw [h.endpoint] at hnext hjournal
    rw [h.serverName, h.verifyHost] at hsecure
    obtain ⟨hdials, hp⟩ := Operation.dials_of_next? hnext
    subst htask
    have hsucceeded : succeeded ((j.wire, .finish 0 o none) :: log) = o :: succeeded log := by
      rw [QuoteFeed.succeeded_cons, Task.succeeds?, if_pos hdials]
      rfl
    have hlast : dialStarts j.journal = o :: succeeded log := h.current o (hsucceeds o (if_pos hdials)).1 hdials
    have hstarts : dialStarts l.journal = p :: o :: succeeded log := by
      rw [hjournal, dialStarts_overture hnext, hlast]
    have honly : ∀ q ∈ l.outstanding, q = p := fun q hq => List.mem_singleton.mp (houtstanding ▸ hq)
    refine ⟨h.toKept.trans hkept, hphased, ?_, fun q hq _ => ?_, hended, fun q hq hd => ?_, ?_⟩
    · rw [hstarts]
      exact .next (hlast ▸ h.chain) hnext
    · rw [hstarts, hsucceeded, honly q hq]
    · exact Bool.noConfusion (hp.symm.trans (honly q hq ▸ hd))
    · rw [hjournal]
      refine h.shows.overture (hmono _) fun hp => ?_
      rw [(hsecure hp).1, (hsecure hp).2]
      rfl
  | @besides es hjournal hbesides hdials hothers =>
    have hstarts : dialStarts l.journal = dialStarts j.journal := hjournal ▸ dialStarts_besides hbesides
    refine ⟨h.toKept.trans hkept, hphased, hstarts ▸ h.chain, fun o ho hd => ?_, hended,
      fun o ho hd => hthrough (hothers o ho hd), ?_⟩
    · -- an operation of the dial is still outstanding only if nothing has ended, and then no success is handled
      obtain ⟨hasked, hmem⟩ := hdials o ho hd
      have hnone : task.succeeds? = none := by
        cases task with
        | finish => exact hasked.elim
        | send => rfl
        | close => rfl
      rw [hstarts, QuoteFeed.succeeded_cons, hnone]
      exact h.current o hmem hd
    · rw [hjournal]
      refine h.shows.besides (hmono _) fun x hx => (hbesides x hx).mono hthrough fun hrefused => ?_
      exact hjournal ▸ hrefused.2

/-- A connection that begins to dial has started to search for the address, and nothing else. -/
theorem dialing_dialed (serverNameFails verifyHostFails : Bool) (endpoint : Endpoint) {earlier : List Entry}
    (hearlier : ∀ x ∈ earlier, x = .call .resolverCancel) :
    Dialing (dialed serverNameFails verifyHostFails endpoint) [] { dialed serverNameFails verifyHostFails endpoint with
      journal := (dialed serverNameFails verifyHostFails endpoint).journal ++ earlier } := by
  have hbesides : ∀ {through refused : Prop}, ∀ x ∈ earlier, x.Besides through refused :=
    fun x hx => hearlier x hx ▸ trivial
  have hnone : dialStarts earlier = [] := List.append_nil earlier ▸ dialStarts_besides (@hbesides False False)
  have hstarts : dialStarts ((dialed serverNameFails verifyHostFails endpoint).journal ++ earlier) = [.resolve] := by
    rw [dialStarts_append, hnone]
    rfl
  have hnothing : Shows (dialed serverNameFails verifyHostFails endpoint) (.handshake ∈ succeeded []) [] :=
    ⟨by simp, by simp, fun later earlier h => by simp at h, by simp, by simp⟩
  have hasked : Shows (dialed serverNameFails verifyHostFails endpoint) (.handshake ∈ succeeded []) earlier :=
    List.append_nil earlier ▸ hnothing.besides id hbesides
  refine ⟨⟨rfl, rfl, rfl⟩, phased_dialed serverNameFails verifyHostFails endpoint, ?_, fun o ho _ => ?_,
    fun h => absurd rfl h, fun o ho hd => ?_, hasked.append id ?_ ?_ ?_ ?_ ?_⟩
  · rw [hstarts]
    exact .resolve
  · rw [hstarts, List.mem_singleton.mp ho]
    rfl
  · rw [List.mem_singleton.mp ho] at hd
    cases hd
  · simp [dialed, Entry.role, Call.role]
  · simp [dialed, or_imp, forall_and, Call.AimsAt]
  · exact hasked.secured.append (by simp [dialed])
  · simp [dialed]
  · simp [dialed, Entry.role, Call.role]

end Outline

namespace WireSession

variable {s t u : WireSession} {log : List (Wire × Task)} {serverNameFails verifyHostFails : Bool}
  {reactions : List (Occasion × List WireOp)} {endpoint : Endpoint}

/-- What a connection has dialed is in order: each operation is started at most once, as the success of the one before
it is handled, and for the address. With encryption, no hands are shaken over a stream that has not been secured, and
the stream is not secured unless its names have been settled; if they cannot be, the close has been reported. Frames
flow only when the last operation has succeeded. -/
structure DialsInOrder (endpoint : Endpoint) (serverNameFails verifyHostFails : Bool) (log : List (Wire × Task))
    (t : WireSession) : Prop where
  inOrder : (dialStarts t.journal).reverse <+: dialSequence endpoint.tls
  once : (dialStarts t.journal).Nodup
  inTurn : ∀ label u, Happens t label u → dialStarts u.journal = dialStarts t.journal ∨
    ∃ o p, label = some (.finish 0 o none) ∧ (dialStarts t.journal).head? = some o ∧
      o.next? endpoint.tls = some p ∧ dialStarts u.journal = p :: dialStarts t.journal
  aimed : ∀ c, .call c ∈ t.journal → c.AimsAt endpoint
  secured : SecuredFor endpoint.host.untilNul t.journal
  refused : endpoint.tls = true → (serverNameFails || verifyHostFails) = true →
    .tls ∉ dialStarts t.journal ∧ .handshake ∉ dialStarts t.journal ∧
      ∀ e ∈ t.journal, e.role = .naming → .closed ∈ reports t.journal
  flow : ∀ e ∈ t.journal, e.role = .flow → .handshake ∈ succeeded log ∧ (endpoint.tls = true → .tls ∈ succeeded log)

theorem Begins.dialing (h : Begins serverNameFails verifyHostFails reactions endpoint s) (hlog : Leads s log t) :
    t.wires.Single ∧ Outline.Dialing (Outline.dialed serverNameFails verifyHostFails endpoint) log t.outline := by
  obtain ⟨hsingle, -, earlier, hearlier, houtline⟩ := h.outline_eq
  exact hlog.induction hsingle (houtline ▸ Outline.dialing_dialed serverNameFails verifyHostFails endpoint hearlier)
    (fun hk hm => hk.silent hm) fun hk hm => hk.handled hm

theorem Begins.dialsInOrder (h : Begins serverNameFails verifyHostFails reactions endpoint s) (hlog : Leads s log t) :
    DialsInOrder endpoint serverNameFails verifyHostFails log t := by
  obtain ⟨hsingle, hdialing⟩ := h.dialing hlog
  have hchain : Dial endpoint.tls (dialStarts t.journal) := hdialing.chain
  have hshows := hdialing.shows
  refine ⟨hchain.isPrefix, ?_, fun label u hu => ?_, hshows.aimed, hshows.secured, fun htls hfails => ?_,
    fun e he hrole => ?_⟩
  · refine List.nodup_reverse.mp (hchain.isPrefix.sublist.nodup ?_)
    cases endpoint.tls <;> decide
  · obtain ⟨-, hmoves, -⟩ := hu.moves hsingle
    cases label with
    | none =>
      refine .inl ?_
      show dialStarts u.outline.journal = dialStarts t.outline.journal
      generalize u.outline = l at hmoves
      cases hmoves with
      | still => rfl
      | ended => rfl
    | some task =>
      refine (hdialing.dialStarts_eq hmoves).imp_right ?_
      rintro ⟨o, p, rfl, hlast, hnext, hstarts⟩
      exact ⟨o, p, rfl, congrArg List.head? hlast, hnext, hstarts⟩
  · have hno : .tls ∉ dialStarts t.journal := fun hmem =>
      Bool.noConfusion ((hshows.settled (tls_mem_dialStarts_iff.mp hmem)).symm.trans hfails)
    refine ⟨hno, fun hmem => hno ((htls ▸ hchain : Dial true _).tls_mem hmem), fun e he hrole => ?_⟩
    exact List.mem_filterMap.mpr ⟨_, hshows.refused e he hrole hfails, rfl⟩
  · have hmem : .handshake ∈ succeeded log := hshows.flow e he hrole
    have hsucceeded : Dial endpoint.tls (succeeded log) := hdialing.ended (List.ne_nil_of_mem hmem)
    exact ⟨hmem, fun htls => (htls ▸ hsucceeded : Dial true _).tls_mem hmem⟩

/-- An operation that is pending can end, and its success can be handled at once. -/
theorem exists_finished (hs : t.wires.Single) (operation : Operation) (ho : operation ∈ t.outline.pending) :
    ∃ u received, Happens t (some (.finish 0 operation none)) u ∧
      Comes t ((t.outline.lose operation received).finish operation none) u := by
  have hgives : (Exchange.complete quiet operation none [] false).Gives t fun found u => found = true ∧
      ∃ received, Comes t ((t.outline.lose operation received).finish operation none) u :=
    gives_complete hs (fun hno => absurd ho hno) fun v _ hv =>
      (hv.finish courteous_quiet operation none).mono fun _ _ hu => ⟨rfl, _, hu⟩
  obtain ⟨found, u, hu, rfl, received, hcomes⟩ := hgives
  exact ⟨u, received, .finished courteous_quiet hu, hcomes⟩

/-- The stream of a connection with encryption comes to be secured. -/
theorem exists_secured (reactions : List (Occasion × List WireOp)) (endpoint : Endpoint) (htls : endpoint.tls = true) :
    ∃ log t, Leads (dialed false false reactions endpoint) log t ∧
      t.journal = Outline.overture endpoint .tls ++ (Outline.overture endpoint .connect ++
        (dialed false false reactions endpoint).journal) := by
  have hdialed : (dialed false false reactions endpoint).wires.Single := single_dialed
  obtain ⟨t, received, ht, hcomes⟩ := exists_finished hdialed .resolve List.mem_cons_self
  obtain ⟨u, received', hu, hcomes'⟩ := exists_finished hcomes.single .connect
    (by rw [hcomes.outline]; exact List.mem_cons_self)
  refine ⟨_, u, (Leads.refl.handled ht).handled hu, ?_⟩
  have houtline := hcomes'.outline
  rw [hcomes.outline] at houtline
  refine (congrArg Outline.journal houtline).trans ?_
  have hsecured : ∀ k : Outline, k.wire.endpoint.tls = true → k.serverNameFails = false → k.verifyHostFails = false →
      k.afterConnect.journal = Outline.overture k.wire.endpoint .tls ++ k.journal := by
    intro k hk hname hhost
    rw [Outline.afterConnect, if_pos hk, Outline.startTls, hname, hhost]
    rfl
  exact hsecured _ htls rfl rfl

/-- Whatever has happened to a connection that was told to connect once, in whatever order and whatever was asked of it
before: it has dialed in order. The stream is secured for the host of the address, in every run, just in case the host
has no zero octet, or the stream is never secured at all. -/
theorem dials_in_order_and_secured_iff (serverNameFails verifyHostFails : Bool)
    (reactions : List (Occasion × List WireOp)) (endpoint : Endpoint) :
    (∀ s log t, Begins serverNameFails verifyHostFails reactions endpoint s → Leads s log t →
      DialsInOrder endpoint serverNameFails verifyHostFails log t) ∧
    ((∀ s log t, Begins serverNameFails verifyHostFails reactions endpoint s → Leads s log t →
      SecuredFor endpoint.host t.journal) ↔
      (endpoint.tls = true → serverNameFails = false → verifyHostFails = false → 0 ∉ endpoint.host)) := by
  refine ⟨fun s log t hs hlog => hs.dialsInOrder hlog, fun hall htls hname hhost => ?_, fun hproper s log t hs hlog => ?_⟩
  · subst hname hhost
    obtain ⟨log, t, hlog, hjournal⟩ := exists_secured reactions endpoint htls
    obtain ⟨_, hnames⟩ := hall _ log t begins_dialed hlog [] _ hjournal
    have hname : endpoint.host.untilNul = endpoint.host := by
      injection hnames with _ hnames
      injection hnames with hverify _
      injection hverify with hverify
      injection hverify with hverify
      exact hverify.symm
    exact Octets.untilNul_eq_self_iff.mp hname
  · obtain ⟨-, hdialing⟩ := hs.dialing hlog
    by_cases hmem : .call .tlsHandshake ∈ t.journal
    · have htls : endpoint.tls = true := hdialing.chain.tls_eq (tls_mem_dialStarts_iff.mpr hmem)
      have hsettled : (serverNameFails || verifyHostFails) = false := hdialing.shows.settled hmem
      obtain ⟨hname, hhost⟩ : serverNameFails = false ∧ verifyHostFails = false := by simpa using hsettled
      have hsecured := hdialing.shows.secured
      rwa [show (Outline.dialed serverNameFails verifyHostFails endpoint).wire.endpoint.host.untilNul = endpoint.host
        from Octets.untilNul_eq_self_iff.mpr (hproper htls hname hhost)] at hsecured
    · intro later earlier hjournal
      exact absurd (hjournal ▸ List.mem_append_right _ List.mem_cons_self) hmem

def encryptedEndpoint : Endpoint := { tls := true, host := octets "h", port := octets "443", target := octets "/p" }

theorem encryptedEndpoint_secured : ∃ log t, Leads (dialed false false [] encryptedEndpoint) log t ∧
    .call .tlsHandshake ∈ t.journal ∧ SecuredFor (octets "h") t.journal := by
  obtain ⟨log, t, hlog, hjournal⟩ := exists_secured [] encryptedEndpoint rfl
  obtain ⟨-, hsecured⟩ := dials_in_order_and_secured_iff false false [] encryptedEndpoint
  refine ⟨log, t, hlog, by rw [hjournal]; exact List.mem_cons_self, ?_⟩
  exact hsecured.mpr (fun _ _ _ => by decide +kernel) _ log t begins_dialed hlog

/-- An address whose host is that of another one up to a zero octet. -/
def cutEndpoint : Endpoint := { tls := true, host := [97, 0, 98], port := octets "443", target := octets "/p" }

/-- The stream is secured for a host that is not that of the address. -/
theorem cutEndpoint_not_secured : Endpoint.parse (octets "wss://a\x00b/p") = .ok cutEndpoint ∧
    ¬∀ s log t, Begins false false [] cutEndpoint s → Leads s log t → .call .tlsHandshake ∈ t.journal →
      .call (.serverName cutEndpoint.host) ∈ t.journal ∧ .call (.verifyHost cutEndpoint.host) ∈ t.journal := by
  refine ⟨by decide +kernel, fun hclaim => ?_⟩
  obtain ⟨log, t, hlog, hjournal⟩ := exists_secured [] cutEndpoint rfl
  have hsecured := hclaim _ log t begins_dialed hlog (by rw [hjournal]; exact List.mem_cons_self)
  rw [hjournal] at hsecured
  revert hsecured
  decide +kernel

end WireSession

end QuoteFeed
