import CestWriter.Proofs.Emission.Follows
import CestWriter.Proofs.Fallible

/-! # Every action is written after one of its templates -/

namespace CestWriter

open Php (Piece Statement)

/-- A way of writing locators fills the holes as expected. -/
structure Holes.Admits (H : Holes) (w : LocatorWriter) : Prop where
  locator : ∀ {p e : String}, Prepared p.toList → w.locator p = .ok e → H.locator e
  option : ∀ {p e : String}, Prepared p.toList → w.option p = .ok e → H.option e
  body : H.locator "WebDriverBy::cssSelector('body')"

variable {H : Holes} {setting : Setting} {s : Step} {form : Form}

/-! ## Arguments -/

theorem Prepared.address {baseUrl p : String} (h : Prepared p.toList) :
    Prepared (Emission.address baseUrl p).toList := by
  unfold Emission.address
  split
  · exact h
  · simpa [Php.escape] using (Prepared.escapeChars baseUrl.toList).append h

theorem Prepared.at_sign {p locator key : String} (h : Prepared p.toList)
    (hcut : Text.cutLast? '@' p = some (locator, key)) :
    Prepared locator.toList ∧ Prepared key.toList := by
  rw [Text.eq_of_cutLast? hcut] at h
  exact h.cut (Prepared.isFree (by decide) (by decide)) rfl

private theorem Prepared.of_after? {lead p rest : String} (h : Prepared p.toList)
    (hcut : Text.after? lead p = some rest) (hl : ∀ c ∈ lead.toList, c ≠ '\\' ∧ c ≠ '\'') :
    Prepared rest.toList := by
  rw [Text.eq_of_after? hcut] at h
  exact h.after hl

theorem Emission.repeatCount_follows {p : String} {count : Statement} (hp : Prepared p.toList)
    (h : repeatCount p = .ok count) :
    ∃ row ∈ [[Part.integer], [.code "(int) ", .expression]], Follows H count row := by
  simp only [repeatCount] at h
  split at h
  · obtain rfl := Except.ok.inj h
    exact ⟨_, .head _, .int .nil⟩
  · split at h
    · simp at h
    · obtain rfl := Except.ok.inj h
      exact ⟨_, .tail _ (.head _), .code (.quoted hp .nil)⟩

/-! ## Actions with several forms -/

namespace Emission

theorem times_follows {p : String} (hp : Prepared p.toList) (h : times p = .ok form) :
    ∃ t ∈ Action.templates .times, form.render.Follows H t := by
  obtain ⟨count, hcount, h⟩ := bind_eq_ok.mp h
  obtain rfl := Except.ok.inj h
  obtain ⟨row, hm, hrow⟩ := repeatCount_follows (H := H) hp hcount
  refine ⟨_, List.mem_map_of_mem (f := Template.repeated) hm, Form.block_follows ?_⟩
  exact .cons ⟨rfl, .code (hrow.append (.code .nil))⟩ (FollowAll.one (.code .nil))

theorem selectWindow_follows {p : String} (hp : Prepared p.toList) (h : selectWindow p = .ok form) :
    ∃ t ∈ Action.templates .selectWindow, form.render.Follows H t := by
  have hnth : ∀ n, (nthWindow n).render.Follows H (.flat (Row.withDriver none [
      [.code "$driver->switchTo()->window($driver->getWindowHandles()[", .integer, .code "]);"]])) :=
    fun n => Form.flat_follows (.withDriver (.cons (.code (.int (.code .nil))) .nil))
  have hname : ∀ {lead rest : String}, Text.after? lead p = some rest →
      (∀ c ∈ lead.toList, c ≠ '\\' ∧ c ≠ '\'') →
      (Form.act "switchToWindow" [[.quoted rest]]).render.Follows H
        (.act "switchToWindow" [[.expression]]) :=
    fun hr hl => Form.act_follows (.cons (.quoted (hp.of_after? hr hl) .nil) .nil)
  unfold selectWindow at h
  split at h
  · rename_i hr
    obtain rfl := Except.ok.inj h
    exact ⟨_, .head _, hname hr (by simp)⟩
  · rename_i hr
    obtain rfl := Except.ok.inj h
    exact ⟨_, .head _, hname hr (by simp)⟩
  · obtain rfl := Except.ok.inj h
    exact ⟨_, .tail _ (.head _), hnth 0⟩
  · split at h
    · obtain rfl := Except.ok.inj h
      exact ⟨_, .tail _ (.head _), hnth _⟩
    · simp at h
  · simp at h

theorem selectFrame_follows {w : LocatorWriter} {p : String} (hw : H.Admits w)
    (hp : Prepared p.toList) (h : selectFrame w p = .ok form) :
    ∃ t ∈ Action.templates .selectFrame, form.render.Follows H t := by
  unfold selectFrame at h
  split at h
  · obtain rfl := Except.ok.inj h
    exact ⟨_, .head _, Form.act_follows .nil⟩
  · split at h
    · obtain ⟨n, -, h⟩ := bind_eq_ok.mp h
      obtain rfl := Except.ok.inj h
      exact ⟨_, .tail _ (.tail _ (.head _)),
        Form.flat_follows (.withDriver (.cons (.code (.int (.code .nil))) .nil))⟩
    · obtain ⟨e, he, h⟩ := bind_eq_ok.mp h
      obtain rfl := Except.ok.inj h
      exact ⟨_, .tail _ (.head _), Form.act_follows (.cons (.locator (hw.locator hp he) .nil) .nil)⟩

theorem storeAttribute_follows {w : LocatorWriter} {p name : String} (hw : H.Admits w)
    (hp : Prepared p.toList) (hn : H.name name) (h : storeAttribute w p name = .ok form) :
    ∃ t ∈ Action.templates .storeAttribute, form.render.Follows H t := by
  unfold storeAttribute at h
  split at h
  · simp [throw, throwThe, MonadExceptOf.throw] at h
  · rename_i hcut
    obtain ⟨hlocator, hkey⟩ := hp.at_sign hcut
    obtain ⟨e, he, h⟩ := bind_eq_ok.mp h
    obtain rfl := Except.ok.inj h
    exact Form.capture_follows hn
      (.code (.locator (hw.locator hlocator he) (.code (.quoted hkey (.code .nil)))))

theorem mouse_follows {e gesture : String} (he : H.locator e) :
    (mouse e gesture).render.Follows H (.mouse gesture) := by
  have hfind : Follows H (Form.findElement e) Row.findElement :=
    .code (.locator he (.code .nil))
  exact Form.flat_follows (.withDriver (.cons hfind (.cons (.code (.code (.code .nil))) .nil)))

theorem driverWait_follows {e goal : String} {limit : Int} (he : H.locator e) :
    (driverWait e limit goal).render.Follows H (.driverWait goal) := by
  have hfind : Follows H (Form.findElement e) Row.findElement :=
    .code (.locator he (.code .nil))
  have hwait : Follows H
      [.code "$driver->wait(", .int limit, .code ")->until(", .code goal, .code ");"]
      [.code "$driver->wait(", .integer, .code ")->until(", .code goal, .code ");"] :=
    .code (.int (.code (.code (.code .nil))))
  exact Form.flat_follows (.withDriver (.cons hfind (.cons hwait .nil)))

theorem editable_follows {e assertion : String} (he : H.locator e) :
    (editable e assertion).render.Follows H (.editable assertion) := by
  have hassert : Follows H (Statement.act assertion [[.code "$element->isEnabled()"]])
      (Row.act assertion [[.code "$element->isEnabled()"]]) :=
    .act (.cons (.code .nil) .nil)
  exact Form.flat_follows ((FollowAll.fetchElement he).append (.one hassert))

theorem callOrStore_follows {raw name : String} (hn : H.name name) :
    ∃ t ∈ Action.templates .executeScript,
      (callOrStore (runInPage "" "" (Argument.script raw)) name).render.Follows H t := by
  cases hne : name.isEmpty with
  | true =>
      refine ⟨_, .head _, ?_⟩
      simpa [callOrStore, hne] using Form.statement_follows (Follows.script.append (.code .nil)) rfl
  | false =>
      refine ⟨_, .tail _ (.head _), ?_⟩
      simpa [callOrStore, hne] using Form.statement_follows (.assign hn hne .script) rfl

theorem runTest_follows {name : String} (h : runTest name = .ok form) :
    ∃ t ∈ Action.templates .runTest, form.render.Follows H t := by
  simp only [runTest] at h
  split at h
  · simp at h
  · obtain rfl := Except.ok.inj h
    exact ⟨_, .head _, Form.statement_follows
      (.code (.word Identifier.isNameChar_of_mem_helperName (.code .nil))) rfl⟩

end Emission

/-! ## All actions -/

/-- Whatever an action is written as for a step follows a template of the action. -/
theorem Action.compose_follows {a : Action} (hw : H.Admits setting.locators)
    (hn : ∀ name ∈ a.rawNames s, H.name name) (ha : a ≠ .executeAsyncScript)
    (h : a.compose setting s = .ok form) : ∃ t ∈ a.templates, form.render.Follows H t := by
  have htarget := Prepared.text s.target
  have hvalue := Prepared.text s.value
  cases a with
  | openPage =>
      obtain rfl := Except.ok.inj h
      exact ⟨_, .head _, Form.statement_follows (.code (.quoted htarget.address (.code .nil))) rfl⟩
  | closeTab | acceptPopup | cancelPopup =>
      obtain rfl := Except.ok.inj h
      exact ⟨_, .head _, Form.act_follows .nil⟩
  | setWindowSize =>
      obtain ⟨size, -, h⟩ := bind_eq_ok.mp h
      obtain rfl := Except.ok.inj h
      exact ⟨_, .head _, Form.act_follows (.cons (.int .nil) (.cons (.int .nil) .nil))⟩
  | selectWindow => exact Emission.selectWindow_follows htarget h
  | selectFrame => exact Emission.selectFrame_follows hw htarget h
  | click | doubleClick | check | uncheck | verifyChecked | verifyNotChecked
  | verifyElementPresent | verifyElementNotPresent =>
      obtain ⟨e, he, h⟩ := bind_eq_ok.mp h
      obtain rfl := Except.ok.inj h
      exact ⟨_, .head _, Form.act_follows (.cons (.locator (hw.locator htarget he) .nil) .nil)⟩
  | dragAndDrop =>
      obtain ⟨e, he, h⟩ := bind_eq_ok.mp h
      obtain ⟨e', he', h⟩ := bind_eq_ok.mp h
      obtain rfl := Except.ok.inj h
      exact ⟨_, .head _, Form.act_follows (.cons (.locator (hw.locator htarget he) .nil)
        (.cons (.locator (hw.locator hvalue he') .nil) .nil))⟩
  | selectOption =>
      obtain ⟨e, he, h⟩ := bind_eq_ok.mp h
      obtain ⟨e', he', h⟩ := bind_eq_ok.mp h
      obtain rfl := Except.ok.inj h
      exact ⟨_, .head _, Form.act_follows (.cons (.locator (hw.locator htarget he) .nil)
        (.cons (.option (hw.option hvalue he') .nil) .nil))⟩
  | sendKeys =>
      obtain ⟨e, he, h⟩ := bind_eq_ok.mp h
      obtain rfl := Except.ok.inj h
      exact ⟨_, .head _, Form.act_follows (.cons (.locator (hw.locator htarget he) .nil)
        (.cons (.one .keys) .nil))⟩
  | editContent =>
      obtain ⟨e, he, h⟩ := bind_eq_ok.mp h
      obtain rfl := Except.ok.inj h
      have hfetch := FollowAll.fetchElement (hw.locator htarget he)
      refine ⟨_, .head _, Form.flat_follows (hfetch.append (.one (.act ?_)))⟩
      exact .cons (.literal .nil) (.cons (.code (.quoted hvalue (.code .nil))) .nil)
  | mouseDown | mouseMove | mouseUp =>
      obtain ⟨e, he, h⟩ := bind_eq_ok.mp h
      obtain rfl := Except.ok.inj h
      exact ⟨_, .head _, Emission.mouse_follows (hw.locator htarget he)⟩
  | mouseOut =>
      obtain rfl := Except.ok.inj h
      exact ⟨_, .head _, Emission.mouse_follows hw.body⟩
  | submit | setSpeed =>
      obtain rfl := Except.ok.inj h
      exact ⟨_, .head _, Form.statement_follows (.code (.literal (.code .nil))) rfl⟩
  | answerOnVisiblePrompt =>
      obtain rfl := Except.ok.inj h
      refine ⟨_, .head _, Form.flat_follows (.cons ⟨rfl, .act ?_⟩ (FollowAll.one (.act .nil)))⟩
      exact .cons (.quoted htarget .nil) .nil
  | assertAlert | verifyTitle =>
      obtain rfl := Except.ok.inj h
      exact ⟨_, .head _, Form.act_follows (.cons (.quoted htarget .nil) .nil)⟩
  | assertStored =>
      obtain rfl := Except.ok.inj h
      exact ⟨_, .head _, Form.act_follows (.cons (.slot (hn _ (.head _)) .nil)
        (.cons (.quoted hvalue .nil) .nil))⟩
  | verifyEditable | verifyNotEditable =>
      obtain ⟨e, he, h⟩ := bind_eq_ok.mp h
      obtain rfl := Except.ok.inj h
      exact ⟨_, .head _, Emission.editable_follows (hw.locator htarget he)⟩
  | verifyText | verifyNotText =>
      obtain ⟨e, he, h⟩ := bind_eq_ok.mp h
      obtain rfl := Except.ok.inj h
      exact ⟨_, .head _, Form.act_follows (.cons (.quoted hvalue .nil)
        (.cons (.locator (hw.locator htarget he) .nil) .nil))⟩
  | verifyValue =>
      obtain ⟨e, he, h⟩ := bind_eq_ok.mp h
      obtain rfl := Except.ok.inj h
      exact ⟨_, .head _, Form.act_follows (.cons (.locator (hw.locator htarget he) .nil)
        (.cons (.code (.literal (.code (.quoted hvalue (.code .nil))))) .nil))⟩
  | verifySelectedLabel | verifyNotSelectedValue =>
      obtain ⟨e, he, h⟩ := bind_eq_ok.mp h
      obtain rfl := Except.ok.inj h
      exact ⟨_, .head _, Form.act_follows (.cons (.locator (hw.locator htarget he) .nil)
        (.cons (.quoted hvalue .nil) .nil))⟩
  | pause =>
      obtain ⟨n, -, h⟩ := bind_eq_ok.mp h
      obtain rfl := Except.ok.inj h
      exact ⟨_, .head _, Form.act_follows (.cons (.int .nil) .nil)⟩
  | waitForElementPresent | waitForElementVisible | waitForElementNotVisible =>
      obtain ⟨e, he, h⟩ := bind_eq_ok.mp h
      obtain ⟨n, -, h⟩ := bind_eq_ok.mp h
      obtain rfl := Except.ok.inj h
      exact ⟨_, .head _, Form.act_follows (.cons (.locator (hw.locator htarget he) .nil)
        (.cons (.int .nil) .nil))⟩
  | waitForElementNotPresent | waitForElementEditable | waitForElementNotEditable =>
      obtain ⟨e, he, h⟩ := bind_eq_ok.mp h
      obtain ⟨n, -, h⟩ := bind_eq_ok.mp h
      obtain rfl := Except.ok.inj h
      exact ⟨_, .head _, Emission.driverWait_follows (hw.locator htarget he)⟩
  | waitForText =>
      obtain ⟨e, he, h⟩ := bind_eq_ok.mp h
      obtain rfl := Except.ok.inj h
      exact ⟨_, .head _, Form.act_follows (.cons (.quoted hvalue .nil) (.cons (.int .nil)
        (.cons (.locator (hw.locator htarget he) .nil) .nil)))⟩
  | runScript =>
      obtain rfl := Except.ok.inj h
      exact ⟨_, .head _, Form.statement_follows (Follows.script.append (.code .nil)) rfl⟩
  | executeScript =>
      obtain rfl := Except.ok.inj h
      exact Emission.callOrStore_follows (hn _ (.head _))
  | executeAsyncScript => exact (ha rfl).elim
  | store =>
      obtain rfl := Except.ok.inj h
      exact Form.assign_follows (hn _ (.head _)) (.quoted htarget .nil)
  | storeJson =>
      obtain rfl := Except.ok.inj h
      exact Form.assign_follows (hn _ (.head _)) (.code (.quoted htarget (.code .nil)))
  | storeAttribute => exact Emission.storeAttribute_follows hw htarget (hn _ (.head _)) h
  | storeText =>
      obtain ⟨e, he, h⟩ := bind_eq_ok.mp h
      obtain rfl := Except.ok.inj h
      exact Form.capture_follows (hn _ (.head _))
        (.code (.locator (hw.locator htarget he) (.code .nil)))
  | storeTitle =>
      obtain rfl := Except.ok.inj h
      exact Form.capture_follows (hn _ (.head _)) (.code .nil)
  | storeValue =>
      obtain ⟨e, he, h⟩ := bind_eq_ok.mp h
      obtain rfl := Except.ok.inj h
      exact Form.capture_follows (hn _ (.head _))
        (.code (.locator (hw.locator htarget he) (.code (.literal (.code .nil)))))
  | storeWindowHandle =>
      obtain rfl := Except.ok.inj h
      exact Form.capture_follows (hn _ (.head _)) (.code .nil)
  | storeXpathCount =>
      obtain ⟨e, he, h⟩ := bind_eq_ok.mp h
      obtain rfl := Except.ok.inj h
      exact Form.capture_follows (hn _ (.head _))
        (.code (.locator (hw.locator htarget he) (.code .nil)))
  | ifBranch | elseIf | whileLoop | repeatIf =>
      obtain rfl := Except.ok.inj h
      exact ⟨_, .head _, Form.block_follows (.one (.code (Follows.script.append (.code .nil))))⟩
  | elseBranch | doLoop | endBlock =>
      obtain rfl := Except.ok.inj h
      exact ⟨_, .head _, Form.block_follows (.one (.code .nil))⟩
  | times => exact Emission.times_follows htarget h
  | forEach =>
      obtain rfl := Except.ok.inj h
      have hcollection := hn s.target (.head _)
      have hitem := hn s.value (.tail _ (.head _))
      exact ⟨_, .head _, Form.block_follows (.cons ⟨rfl, .code (.slot hcollection (.code .nil))⟩
        (.cons ⟨rfl, .code .nil⟩ (FollowAll.one (.slot hitem (.code .nil)))))⟩
  | runTest =>
      have h : Emission.runTest s.target = .ok form := h
      exact Emission.runTest_follows h
  | echo =>
      obtain rfl := Except.ok.inj h
      exact ⟨_, .head _, Form.statement_follows (.code (.quoted htarget (.code .nil))) rfl⟩
  | skip =>
      obtain rfl := Except.ok.inj h
      exact ⟨_, .head _, Form.nothing_follows⟩

end CestWriter
