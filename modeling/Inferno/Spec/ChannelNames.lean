import Inferno.Lib.CString
import Inferno.Spec.Arc

/-! The names of `rx_channel_t` as the arrays they are kept in, and `subscriber_set` on them. -/

namespace Inferno

open Lib

structure ChannelNames where
  txChannel : CharArray 31
  txDevice : CharArray 31

def ChannelNames.store (a : ChannelNames) (txChannel txDevice : CStr) : ChannelNames :=
  if txChannel = [] then { txChannel := a.txChannel.clear, txDevice := a.txDevice.clear }
  else { txChannel := a.txChannel.strncpy txChannel, txDevice := a.txDevice.strncpy txDevice }

def storeNamesAt (c : ℕ) (txChannel txDevice : CStr) (t : Fin AP_NCH → ChannelNames) : Fin AP_NCH → ChannelNames :=
  if h : c < AP_NCH then Function.update t ⟨c, h⟩ ((t ⟨c, h⟩).store txChannel txDevice) else t

/-- The arrays read as the names of the channel. -/
structure ChannelNames.Show (a : ChannelNames) (ch : RxChannel) : Prop where
  txChannel : a.txChannel.str = ch.txChannel
  txDevice : a.txDevice.str = ch.txDevice

/-- `subscriber_set` leaves the names it is given, cut to their fields, whatever was there. -/
theorem storeNamesAt_show {t : Fin AP_NCH → ChannelNames} {s : Sub} (h : ∀ c, (t c).Show (s.ch c)) (c : ℕ) {nm host : CStr}
    (hnm : 0 ∉ nm) (hhost : 0 ∉ host) (c' : Fin AP_NCH) :
    (storeNamesAt c nm host t c').Show ((subscriberSetAt c nm host s).ch c') := by
  unfold storeNamesAt subscriberSetAt
  by_cases hc : c < AP_NCH
  · rw [dif_pos hc, dif_pos hc, subscriberSet]
    by_cases he : c' = ⟨c, hc⟩
    · subst he
      simp only [Function.update_self, ChannelNames.store]
      by_cases hempty : nm = []
      · rw [if_pos hempty, if_pos hempty]
        exact ⟨CharArray.clear_str _, CharArray.clear_str _⟩
      · rw [if_neg hempty, if_neg hempty]
        exact ⟨CharArray.strncpy_str _ hnm, CharArray.strncpy_str _ hhost⟩
    · simp only [Function.update_of_ne he]
      exact h c'
  · rw [dif_neg hc, dif_neg hc]
    exact h c'

end Inferno
