import AudioProcessor.AdcDac.Capture
import AudioProcessor.Codec.Frames
import AudioProcessor.Equaliser.Exact
import AudioProcessor.Volume.Control
import AudioProcessor.Codec.Run
import AudioProcessor.Codec.Retry
import AudioProcessor.Codec.Bus
import AudioProcessor.ControlPath.System
import AudioProcessor.Codec.Transfers
import AudioProcessor.ControlPath.Reset
import AudioProcessor.ControlPath.Leds
import AudioProcessor.ControlPath.Update
import AudioProcessor.Volume.Press
import AudioProcessor.ControlPath.Press
import AudioProcessor.AudioPath.System
import AudioProcessor.AudioPath.Frame
import AudioProcessor.AudioPath.EndToEnd
import AudioProcessor.Equaliser.Rounding
import AudioProcessor.AdcDac.Handshake
import AudioProcessor.AdcDac.Loopback
import AudioProcessor.Equaliser.Polling
import AudioProcessor.Equaliser.Settle
import AudioProcessor.AudioPath.Restart
import AudioProcessor.AudioPath.Torn
import AudioProcessor.ControlPath.Meter
import AudioProcessor.TopLevel.StartDelay
import AudioProcessor.TopLevel.SwitchReset
import AudioProcessor.AdcDac.Simulation
import AudioProcessor.Nios.Trace
import AudioProcessor.AudioPath.Paced
import AudioProcessor.Board.Reset
import AudioProcessor.Device.Restart
import AudioProcessor.TopLevel.Display
import AudioProcessor.ControlPath.Wake
import AudioProcessor.Equaliser.Memory
