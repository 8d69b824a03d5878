import Interview.Proofs.Terminal.Screens
/-
The entry that is chosen on a terminal is the item that is answered.

A choice travels a long way as a bare number: the user marks an entry, the reply turns it into
the place of a button or, without the buttons, into the place of a row, the list keeps it if there
is such an item, and the data of that item are the answer. The number means the same thing all
the way because the entries on the terminal are the buttons and then the items of the list, and
because a list that is asked for does not change any more.

The one surprise is the list without items. It shows a row that says so, and accepting it goes
back. That is meant, and it goes for a list of many as well, where nothing needs to be checked: the
answer is then not the empty list (`Screen.ask_vacant`).
-/

set_option autoImplicit false

namespace Interview

open Control (Event)

/-! ## Entries -/

/-- The entry of an item in a list. -/
def Item.entry (i : Item) : String :=
  Terminal.rowEntry (i.row false)

namespace Terminal

variable {c : Terminal} {rows : List Row} {many : Bool}

/-- The entries that a control offers. -/
def offered (c : Terminal) : List String :=
  match c.content with
  | .list rows _ => entries c.chrome.buttons rows
  | .text _ _ => []

theorem offered_eq (hc : c.content = .list rows many) :
    c.offered = entries c.chrome.buttons rows := by
  rw [offered, hc]

theorem length_entries (buttons : List ButtonFace) (rows : List Row) :
    (entries buttons rows).length = buttons.length + rows.length := by
  simp [entries]

/-- What comes back from a list: one entry, or some entries in ascending order. -/
inductive ListReply (buttons count : Nat) : Bool → List Event → Prop
  | one {n : Nat} (lt : n < count) : ListReply buttons count false (selectReply n buttons)
  | many {checked : List Nat} (ascending : checked.Pairwise (· < ·))
      (lt : ∀ i ∈ checked, i < count) : ListReply buttons count true (multiReply checked buttons)

theorem defaultEntry_lt {buttons : List ButtonFace} (h : 0 < buttons.length + rows.length) :
    defaultEntry buttons rows < buttons.length + rows.length := by
  simp only [defaultEntry]
  omega

theorem entryAfter_lt {buttons : List ButtonFace} (h : 0 < buttons.length + rows.length)
    (m : Move) : entryAfter buttons rows m < buttons.length + rows.length := by
  cases m with
  | down steps => exact Nat.mod_lt _ h
  | typed | secret | toggle | leave | interrupt | pause => exact defaultEntry_lt h

/-- A search finds an entry of the list. -/
theorem chosenEntry_lt {buttons : List ButtonFace} {marked : Nat}
    (h : marked < buttons.length + rows.length) :
    chosenEntry buttons rows marked < buttons.length + rows.length := by
  unfold chosenEntry
  simp only
  split
  · exact h
  · rcases hfind : (entries buttons rows).findIdx? fun e =>
        (entries buttons rows)[marked]? == some e with _ | i
    · exact h
    · rw [← length_entries]
      exact (List.findIdx?_eq_some_iff_getElem.mp hfind).1

theorem checkedAfter_ascending (buttons : Nat) (rows : List Row) (flipped : List Nat) :
    (checkedAfter buttons rows flipped).Pairwise (· < ·) :=
  List.pairwise_lt_range.filter _

theorem lt_of_mem_checkedAfter {buttons : Nat} {flipped : List Nat} {i : Nat}
    (h : i ∈ checkedAfter buttons rows flipped) : i < buttons + rows.length := by
  have hrange := List.mem_range.mp (List.mem_filter.mp h).1
  simpa using hrange

/-- **Whatever the user does**, what comes back is about entries of the list. -/
theorem listReply_entered (hc : c.content = .list rows many) (hoffered : c.offered ≠ [])
    (m : Move) :
    ListReply c.chrome.buttons.length c.offered.length many
      (entered c.chrome.buttons m c.content) := by
  rw [offered_eq hc] at hoffered ⊢
  have hcount : 0 < c.chrome.buttons.length + rows.length := by
    rw [← length_entries]
    exact List.length_pos_iff.mpr hoffered
  rw [hc, length_entries]
  rcases many with _ | _
  · exact .one (chosenEntry_lt (entryAfter_lt hcount m))
  · exact .many (checkedAfter_ascending _ _ _) fun i hi => lt_of_mem_checkedAfter hi

/-- A list that has entries can be asked for. -/
theorem obstacle?_of_offered (hc : c.content = .list rows many) (hoffered : c.offered ≠ []) :
    c.obstacle? = none := by
  rw [offered_eq hc] at hoffered
  unfold obstacle?
  rw [hc]
  simp only
  split
  · rename_i hempty
    rw [Bool.and_eq_true, List.isEmpty_iff, List.isEmpty_iff] at hempty
    exact absurd (by simp [entries, hempty.1, hempty.2]) hoffered
  · rfl

end Terminal

/-! ## Accepting -/

namespace PickList

variable {l : PickList}

theorem accept_of_vacant (h : l.vacant = true) : l.accept = some .back := by
  rw [accept, if_pos h]

theorem accept_of_one (hvacant : l.vacant = false) (hmany : l.many = false) {k : Nat} {i : Item}
    (hselection : l.selection = [k]) (hi : l.items[k]? = some i) :
    l.accept = some (.value i.data) := by
  simp [accept, hvacant, hmany, hselection, hi]

theorem accept_of_many (hvacant : l.vacant = false) (hmany : l.many = true) :
    l.accept = some (.value (.list ((l.itemsAt l.selection).map Item.data))) := by
  simp [accept, hvacant, hmany]

/-- No place is lost if there is an item at each. -/
theorem map_some_itemsAt {places : List Nat} (h : ∀ k ∈ places, k < l.items.length) :
    (l.itemsAt places).map some = places.map fun k => l.items[k]? := by
  induction places with
  | nil => rfl
  | cons k rest ih =>
      have hk : k < l.items.length := h k List.mem_cons_self
      have hrest := ih fun k' hk' => h k' (List.mem_cons_of_mem _ hk')
      rw [itemsAt, List.filterMap_cons_some (List.getElem?_eq_getElem hk), List.map_cons,
        List.map_cons, ← List.getElem?_eq_getElem hk]
      exact congrArg _ hrest

end PickList

/-! ## Choosing -/

namespace Terminal

theorem selectReply_of_lt {n buttons : Nat} (h : n < buttons) :
    selectReply n buttons = [.button n] := by
  rw [selectReply, if_pos h]

theorem selectReply_of_le {n buttons : Nat} (h : buttons ≤ n) :
    selectReply n buttons = [.selected [n - buttons], .accept] := by
  rw [selectReply, if_neg (by omega)]

/-- The lowest of the checked entries is the first one. -/
theorem multiReply_of_lt {checked : List Nat} {n buttons : Nat}
    (hascending : checked.Pairwise (· < ·)) (hn : n ∈ checked) (hlowest : ∀ i ∈ checked, n ≤ i)
    (h : n < buttons) : multiReply checked buttons = [.button n] := by
  rcases checked with _ | ⟨x, rest⟩
  · exact absurd hn List.not_mem_nil
  · have hx : x = n := by
      rcases List.mem_cons.mp hn with rfl | hn
      · rfl
      · have hlt := (List.pairwise_cons.mp hascending).1 n hn
        have hle := hlowest x List.mem_cons_self
        omega
    simp [multiReply, hx, h]

theorem multiReply_of_le {checked : List Nat} {buttons : Nat} (h : ∀ n ∈ checked, buttons ≤ n) :
    multiReply checked buttons = [.selected (checked.map (· - buttons)), .accept] := by
  have hnone : checked.find? (fun i => i < buttons) = none := by
    rw [List.find?_eq_none]
    intro n hn hlt
    have hle := h n hn
    have hlt : n < buttons := by simpa using hlt
    omega
  rw [multiReply, hnone]

end Terminal

namespace Screen

variable {made l : PickList} {c : Terminal} {base s : Screen} {w : Session} {id left : Nat}

/-- The turn in which a button is clicked: its handler runs. -/
def clicked (id : Nat) (b : Button) (s : Screen) (w : Session) : Turn :=
  let w := perform id (Act.ofNotes b.notes) w
  match b.click with
  | .error f => .ends (.failed (.collaborator f)) s w
  | .ok none => .stays s w
  | .ok (some r) => .ends (.done r) s w

theorem react_button {n : Nat} {b : Button} (hb : s.buttons[n]? = some b) :
    s.react id (.button n) w = s.clicked id b w := by
  unfold Screen.react Screen.handle clicked
  simp only [hb]
  rcases b.click with f | _ | r
  · rfl
  · rfl
  · rfl

/-- **A selection that was made is accepted** in the turn after it. -/
theorem Exhibits.select (h : Exhibits base made id l c s w) (hloading : l.loading = none)
    {places : List Nat} {r : Reply Json}
    (hr : PickList.accept { l with selection := places.filter (· < l.items.length) } = some r)
    (hleft : 0 < left) :
    ((s.react id (.selected places)
      (w.close id c c.content (.ok [.selected places, .accept])).2).goOn id left).1 = .done r := by
  obtain ⟨left, rfl⟩ : ∃ k, left = k + 1 := ⟨left - 1, by omega⟩
  let l' : PickList := { l with selection := places.filter (· < l.items.length) }
  let s' : Screen := { s with content := .list l' }
  have hclosed := h.shows.close c c.content (.ok [.selected places, .accept])
  generalize (w.close id c c.content (.ok [.selected places, .accept])).2 = w' at hclosed ⊢
  have hreact : s.react id (.selected places) w' = .stays s' w' := by
    simp only [Screen.react, Screen.handle, h.content, Content.handle, PickList.handle]
    rfl
  have hlook : s'.content.look s'.wording = ([], .list l', .await) := by
    simp only [s', Content.look, PickList.look, l', hloading]
  -- the list has nothing left to load, so the acceptance is handed out at once
  have hdevice : w'.devices[id]? =
      some (.shown (c.finish (.ok [.selected places, .accept])).2.2) := hclosed
  have hturn : s'.turn id w' = s'.react id .accept (w'.next id).2 := by
    unfold Screen.turn
    rw [hlook]
    simp only [perform, List.foldl_nil, Session.next, hdevice]
    rfl
  rw [hreact, Turn.goOn, converse_succ, hturn]
  have hhandle : s'.handle .accept = ([], s', .settle r) := by
    simp only [Screen.handle, s', Content.handle, PickList.handle, l', hr]
  rw [Screen.react, hhandle]
  rfl

/-- **The entries on the terminal** are the buttons and then the items, if there are any. -/
theorem Exhibits.offered (h : Exhibits base made id l c s w) (hloading : l.loading = none) :
    c.offered = base.buttons.map (fun b => Terminal.buttonEntry b.face) ++
      (if l.vacant then [base.wording.noItems] else made.source.items.map Item.entry) := by
  obtain ⟨rows, hcontent, hrows⟩ := h.onShow.content
  have hbuttons : c.chrome.buttons.map Terminal.buttonEntry =
      base.buttons.map fun b => Terminal.buttonEntry b.face := by
    rw [h.faces, h.buttons, List.map_map]
    rfl
  rw [Terminal.offered_eq hcontent, Terminal.entries, hbuttons]
  unfold PickList.Rows at hrows
  by_cases hvacant : l.vacant = true
  · rw [if_pos hvacant] at hrows
    rw [if_pos hvacant, hrows, h.wording]
    rfl
  · rw [if_neg hvacant] at hrows
    obtain ⟨picked, rfl⟩ := hrows
    rw [if_neg hvacant, ← h.onShow.items_eq hloading, List.map_map]
    rfl

end Screen

namespace Stand

/-- The button at a place is clicked, and the asking goes on as its handler has it. -/
def Clicks (id : Nat) (buttons : List Button) (n : Nat) (p : Stand)
    (result : Outcome (Reply Json) × Screen × Session) : Prop :=
  ∃ b w, buttons[n]? = some b ∧ result = (p.screen.clicked id b w).goOn id p.left

/-- **The entries that are chosen are the items that are answered**, at a stand of a screen `s` with
the list `made`, when the user is asked for the list. The list is `l` by then, and its control is
`c`. -/
structure AnswersEntries (s : Screen) (made : PickList) (id : Nat) (l : PickList) (c : Terminal)
    (p : Stand) (result : Outcome (Reply Json) × Screen × Session) : Prop where
  /-- The list is not busy any more. -/
  idle : c.busy = false ∧ l.loading = none
  /-- The buttons are offered, and then all the items or the row that says that there are none. -/
  offered : c.offered = s.buttons.map (fun b => Terminal.buttonEntry b.face) ++
    (if l.vacant then [s.wording.noItems] else made.source.items.map Item.entry)
  /-- There are none if the list says so, and it says so unless loading was given up before. -/
  vacant : l.vacant = true → made.source.items = []
  said : made.source.items = [] →
    l.vacant = true ∨ (made.source.fails = true ∧ made.showFailures = false)
  /-- What the user enters is a reply to these entries, and decides what the asking comes to. -/
  heard : c.offered ≠ [] → ∀ m, p.session.move? = some m → m.enters = true →
    Terminal.ListReply s.buttons.length c.offered.length made.many
        (Terminal.entered c.chrome.buttons m c.content) ∧
      ∃ w, w.Shows id c ∧
        result = p.replied id c (.ok (Terminal.entered c.chrome.buttons m c.content)) w
  /-- One entry is a button, or it is an item, whose data are the answer. -/
  one : made.many = false → ∀ w n, w.Shows id c → n < c.offered.length →
    let result := p.replied id c (.ok (Terminal.selectReply n s.buttons.length)) w
    (n < s.buttons.length → p.Clicks id s.buttons n result) ∧
      (s.buttons.length ≤ n → 0 < p.left →
        if l.vacant then result.1 = .done .back
        else ∃ i, made.source.items[n - s.buttons.length]? = some i ∧
          c.offered[n]? = some i.entry ∧ result.1 = .done (.value i.data))
  /-- Among several entries the first button counts. Without buttons, the data of the items are the
  answer, in ascending order; but a list without items goes back, whatever is checked. -/
  many : made.many = true → ∀ w checked, w.Shows id c → checked.Pairwise (· < ·) →
    (∀ i ∈ checked, i < c.offered.length) →
    let result := p.replied id c (.ok (Terminal.multiReply checked s.buttons.length)) w
    (∀ n ∈ checked, n < s.buttons.length → (∀ i ∈ checked, n ≤ i) →
        p.Clicks id s.buttons n result) ∧
      ((∀ n ∈ checked, s.buttons.length ≤ n) → 0 < p.left →
        if l.vacant then result.1 = .done .back
        else ∃ items : List Item,
          items.map some = checked.map (fun n => made.source.items[n - s.buttons.length]?) ∧
            items.map (fun i => some i.entry) = checked.map (fun n => c.offered[n]?) ∧
            result.1 = .done (.value (.list (items.map Item.data))))

end Stand

namespace Screen

variable {made l : PickList} {c : Terminal} {base s : Screen} {w : Session} {id : Nat} {p : Stand}

/-- A button that is chosen is clicked. -/
theorem Exhibits.clicks (h : Exhibits base made id l c p.screen w) {n : Nat}
    (hn : n < base.buttons.length) :
    p.Clicks id base.buttons n (p.replied id c (.ok [.button n]) w) := by
  obtain ⟨b, hb⟩ : ∃ b, base.buttons[n]? = some b := ⟨_, List.getElem?_eq_getElem hn⟩
  refine ⟨b, (w.close id c c.content (.ok [.button n])).2, hb, ?_⟩
  rw [← h.buttons] at hb
  rw [← react_button hb]
  rfl

/-- How many entries there are. -/
theorem Exhibits.length_offered (h : Exhibits base made id l c s w) (hloading : l.loading = none) :
    c.offered.length = base.buttons.length + if l.vacant then 1 else l.items.length := by
  rw [h.offered hloading, List.length_append, List.length_map, h.onShow.items_eq hloading]
  split
  · rfl
  · rw [List.length_map]

/-- The entry of an item stands behind the buttons. -/
theorem Exhibits.offered_of_le (h : Exhibits base made id l c s w) (hloading : l.loading = none)
    (hvacant : l.vacant = false) {n : Nat} (hn : base.buttons.length ≤ n) :
    c.offered[n]? = (l.items[n - base.buttons.length]?).map Item.entry := by
  rw [h.offered hloading, List.getElem?_append_right (by simpa using hn), List.length_map,
    if_neg (by simp [hvacant]), List.getElem?_map, h.onShow.items_eq hloading]

/-- **One entry is chosen.** -/
theorem Exhibits.one (h : Exhibits base made id l c p.screen w) (hloading : l.loading = none)
    (hmany : made.many = false) {n : Nat} (hn : n < c.offered.length)
    (hbutton : base.buttons.length ≤ n) (hleft : 0 < p.left) :
    if l.vacant then
      (p.replied id c (.ok (Terminal.selectReply n base.buttons.length)) w).1 = .done .back
    else ∃ i, made.source.items[n - base.buttons.length]? = some i ∧
      c.offered[n]? = some i.entry ∧
      (p.replied id c (.ok (Terminal.selectReply n base.buttons.length)) w).1 =
        .done (.value i.data) := by
  rw [Terminal.selectReply_of_le hbutton]
  by_cases hvacant : l.vacant = true
  · rw [if_pos hvacant]
    exact h.select hloading (PickList.accept_of_vacant hvacant) hleft
  · rw [h.length_offered hloading, if_neg hvacant] at hn
    have hvacant : l.vacant = false := by simpa using hvacant
    have hlt : n - base.buttons.length < l.items.length := by omega
    have hi := List.getElem?_eq_getElem hlt
    rw [if_neg (by simp [hvacant]), ← h.onShow.items_eq hloading]
    refine ⟨_, hi, ?_, ?_⟩
    · rw [h.offered_of_le hloading hvacant hbutton, hi]
      rfl
    · refine h.select hloading ?_ hleft
      exact PickList.accept_of_one (l := { l with
        selection := [n - base.buttons.length].filter (· < l.items.length) }) hvacant
        (h.onShow.same.2.1.trans hmany) (by simp [hlt]) hi

/-- **Several entries are chosen**, and none of them is a button. -/
theorem Exhibits.several (h : Exhibits base made id l c p.screen w) (hloading : l.loading = none)
    (hmany : made.many = true) {checked : List Nat} (hchecked : ∀ i ∈ checked, i < c.offered.length)
    (hbuttons : ∀ n ∈ checked, base.buttons.length ≤ n) (hleft : 0 < p.left) :
    if l.vacant then
      (p.replied id c (.ok (Terminal.multiReply checked base.buttons.length)) w).1 = .done .back
    else ∃ items : List Item,
      items.map some = checked.map (fun n => made.source.items[n - base.buttons.length]?) ∧
        items.map (fun i => some i.entry) = checked.map (fun n => c.offered[n]?) ∧
        (p.replied id c (.ok (Terminal.multiReply checked base.buttons.length)) w).1 =
          .done (.value (.list (items.map Item.data))) := by
  rw [Terminal.multiReply_of_le hbuttons]
  by_cases hvacant : l.vacant = true
  · rw [if_pos hvacant]
    exact h.select hloading (PickList.accept_of_vacant hvacant) hleft
  · rw [h.length_offered hloading, if_neg hvacant] at hchecked
    have hvacant : l.vacant = false := by simpa using hvacant
    -- every place that is left without the buttons is that of an item
    have hplaces : ∀ k ∈ checked.map (· - base.buttons.length), k < l.items.length := by
      intro k hk
      obtain ⟨n, hn, rfl⟩ := List.mem_map.mp hk
      have hlt := hchecked n hn
      have hle := hbuttons n hn
      omega
    have hitems := PickList.map_some_itemsAt hplaces
    rw [List.map_map] at hitems
    have hentries :
        (l.itemsAt (checked.map (· - base.buttons.length))).map (fun i => some i.entry) =
          checked.map (fun n => c.offered[n]?) := by
      have hmapped := congrArg (List.map (Option.map Item.entry)) hitems
      rw [List.map_map, List.map_map] at hmapped
      refine hmapped.trans (List.map_congr_left fun n hn => ?_)
      exact (h.offered_of_le hloading hvacant (hbuttons n hn)).symm
    rw [if_neg (by simp [hvacant]), ← h.onShow.items_eq hloading]
    refine ⟨l.itemsAt (checked.map (· - base.buttons.length)), hitems, hentries, ?_⟩
    refine h.select hloading ?_ hleft
    have haccept := PickList.accept_of_many (l := { l with
      selection := (checked.map (· - base.buttons.length)).filter (· < l.items.length) }) hvacant
      (h.onShow.same.2.1.trans hmany)
    have hfilter : (checked.map (· - base.buttons.length)).filter (· < l.items.length) =
        checked.map (· - base.buttons.length) :=
      List.filter_eq_self.mpr fun k hk => by simpa using hplaces k hk
    rw [hfilter] at haccept ⊢
    exact haccept

/-- **The entry that is chosen is the item that is answered.** -/
theorem answersEntries_of_ask (h : s.Listed w) {colorful : Bool} {moves : List Terminal.Move}
    (hw : w.host = .terminal colorful moves) (n : Nat) :
    ∃ made, s.content = .list made ∧ ∀ p ∈ s.askStands n w, ∃ l c,
      p.screen.content = .list l ∧ p.session.Shows (s.appear w).1 c ∧
        (c.Asks → p.AnswersEntries s made (s.appear w).1 l c (s.ask n w)) := by
  obtain ⟨made, hmade⟩ := h.fits
  refine ⟨made, hmade.content, fun p hp => ?_⟩
  have hopen : s.disposed = false := by
    by_contra hdisposed
    rw [askStands, if_pos (by simpa using hdisposed)] at hp
    exact absurd hp List.not_mem_nil
  obtain ⟨l, c, hc⟩ := (hmade.ask hopen hw n).2 p hp
  refine ⟨l, c, hc.content, hc.shows, fun hasks => ?_⟩
  have hloading := hc.onShow.loading_of_asks hasks
  obtain ⟨rows, hcontent, -⟩ := hc.onShow.content
  have helsewhere : ∀ w', w'.Shows (s.appear w).1 c →
      Exhibits s made (s.appear w).1 l c p.screen w' :=
    fun w' hw' => hc.changeControl hw' rfl hc.onShow
  have hfaces : c.chrome.buttons.length = s.buttons.length := by
    rw [hc.faces, hc.buttons, List.length_map]
  exact {
    idle := ⟨by rw [hc.onShow.busy, hloading]; rfl, hloading⟩
    offered := hc.offered hloading
    vacant := fun hvacant => (hc.onShow.items_eq hloading).symm.trans (hc.onShow.vacant hvacant)
    said := fun hnone => hc.onShow.said hloading ((hc.onShow.items_eq hloading).trans hnone)
    heard := fun hoffered m hm henters => by
      have hreply := Terminal.listReply_entered hcontent hoffered m
      rw [hfaces, hc.onShow.same.2.1] at hreply
      refine ⟨hreply, ?_⟩
      rw [ask_eq_sequel hp]
      refine Stand.sequel_of_heard hc.shows hc.onShow.inUse hasks
        (Terminal.obstacle?_of_offered hcontent hoffered) ?_
      rw [hm]
      exact Terminal.outcome?_of_enters henters _ _
    one := fun hmany w' n' hw' hn' => by
      refine ⟨fun hlt => ?_, (helsewhere w' hw').one hloading hmany hn'⟩
      rw [Terminal.selectReply_of_lt hlt]
      exact (helsewhere w' hw').clicks hlt
    many := fun hmany w' checked hw' hascending hchecked => by
      refine ⟨fun n' hn' hlt hlowest => ?_, (helsewhere w' hw').several hloading hmany hchecked⟩
      rw [Terminal.multiReply_of_lt hascending hn' hlowest hlt]
      exact (helsewhere w' hw').clicks hlt }

/-- A list of one choice with a back button, whose second item comes in late. -/
def stock : Screen :=
  let batches : List Batch :=
    [⟨[], .none, .ok [.labelled "ant"]⟩, ⟨[], .after 1, .ok [.labelled "bee"]⟩]
  { Screen.new .english (.list (.new (.lazy ⟨[], batches, .none⟩) false)) with
    buttons := [Button.back none] }

/-- The user goes down by one entry, from the first item to the second. -/
theorem answersEntries_of_stock :
    let w := Session.new (.terminal false [.down 1])
    stock.Listed w ∧
      (∃ made, stock.content = .list made ∧ ∃ p ∈ stock.askStands 4 w, ∃ l c,
        p.session.Shows 0 c ∧ c.Asks ∧ c.offered = ["<arrow-left>", "ant", "bee"] ∧
          p.AnswersEntries stock made 0 l c (stock.ask 4 w)) ∧
      (stock.ask 4 w).1 = .done (.value (.text "bee")) := by
  intro w
  have hlisted : stock.Listed w := .fresh rfl (PickList.unshown_new _ _) rfl
  refine ⟨hlisted, ?_, rfl⟩
  obtain ⟨made, hmade, hstands⟩ := answersEntries_of_ask hlisted rfl 4
  refine ⟨made, hmade, _, List.mem_of_getElem? (i := 1) rfl, ?_⟩
  obtain ⟨l, c, -, hc, hanswers⟩ := hstands _ (List.mem_of_getElem? (i := 1) rfl)
  have hcontrol := Device.shown.inj (Option.some.inj hc)
  have hasks : c.Asks := by
    rw [← hcontrol]
    exact Or.inl rfl
  refine ⟨l, c, hc, hasks, ?_, hanswers hasks⟩
  rw [← hcontrol]
  rfl

/-- A list of many choices that has no items. -/
def vacantList : Screen :=
  .new .english (.list (.new (.fixed []) true))

/-- Whoever checks nothing in a list of many without items goes back, and does not answer with no
items. -/
theorem ask_vacant :
    let w := Session.new (.terminal false [.toggle []])
    Terminal.entered [] (.toggle []) (.list [Row.plain Wording.english.noItems] true) =
        Terminal.multiReply [] 0 ∧
      (vacantList.ask 3 w).1 = .done .back ∧
      (vacantList.ask 3 w).1 ≠ .done (.value (.list [])) := by
  intro w
  have hback : (vacantList.ask 3 w).1 = .done .back := rfl
  refine ⟨rfl, hback, ?_⟩
  rw [hback]
  simp

end Screen

end Interview
