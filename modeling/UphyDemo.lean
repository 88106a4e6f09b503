import UphyDemo.Led.Level
import UphyDemo.Led.Mode
import UphyDemo.Led.Signal
import UphyDemo.Led.Response
import UphyDemo.Led.Blink
import UphyDemo.Device.ParamWrite
import UphyDemo.Device.LastWriter
import UphyDemo.Device.ProcessData
import UphyDemo.Startup.Configured
import UphyDemo.Startup.Robust
import UphyDemo.Startup.Report
import UphyDemo.Startup.Answer
import UphyDemo.Startup.BringUp
import UphyDemo.Startup.Once
import UphyDemo.Startup.Ready
import UphyDemo.Ethernet.Capacity
import UphyDemo.Ethernet.Hooks
import UphyDemo.Linker.Commands
import UphyDemo.Foundation.Simulation
import UphyDemo.Led.Controller
import UphyDemo.Led.Timed
import UphyDemo.Device.Contents
import UphyDemo.Ethernet.Loss
import UphyDemo.System.Runtime
import UphyDemo.Foundation.Sections
import UphyDemo.Linker.Image
import UphyDemo.Linker.Startup
import UphyDemo.Linker.Regions
import UphyDemo.Device.Listing
import UphyDemo.Startup.Session
import UphyDemo.Startup.Linear
import UphyDemo.Ethernet.Integrity
import UphyDemo.Led.Settle
